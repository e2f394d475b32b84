import GoAtlas.Proofs.Session.References

namespace GoAtlas

open Syntax Check Reference

variable {ws : Workspace} {p q : Package} {f : SourceFile}

/-- A symbol is declared where an object is. -/
def Symbol.Declares (ws : Workspace) (s : Symbol) (o : Object) : Prop :=
  ∃ f ∈ ws.files true, ∃ n, s.Names f n ∧ o.spot = some ⟨f.path, n.start⟩

theorem Symbol.declares_iff {s : Symbol} {o : Object} (hws : ws.Loaded)
    (hs : s.Written (ws.files true)) :
    s.Declares ws o ↔ Session.isDeclaredBy ws s o = true := by
  constructor
  · rintro ⟨f, hf, n, hn, hspot⟩
    exact (hn.isDeclaredBy_iff hws hf).mpr hspot
  · intro h
    obtain ⟨f, hf, n, hn⟩ := hs
    exact ⟨f, hf, n, hn, (hn.isDeclaredBy_iff hws hf).mp h⟩

theorem Symbol.key_eq {s : Symbol} {o : Object} (hws : ws.Loaded) (hp : p ∈ ws.packages)
    (hs : s.Written (p.allFiles true)) (ho : o.Spelled ws.filesOf) (hd : s.Declares ws o) :
    p.key = o.package := by
  obtain ⟨f, hf, n, hn⟩ := hs
  obtain ⟨f', _, n', hn', hspot⟩ := hd
  obtain ⟨g, hg, hpath, _⟩ := ho _ hspot
  obtain ⟨q, hq, hkey, hg⟩ := Workspace.mem_filesOf.mp hg
  have hpath : g.path = f.path := hpath.trans (hn'.file.symm.trans hn.file)
  have hsame := hws.packageOfFile? hq (List.mem_append_left q.testFiles hg)
  rw [hpath, hws.packageOfFile? hp hf] at hsame
  rw [Option.some.inj hsame, hkey]

namespace Session

variable {s t : Session} {symbol : Symbol} {o : Object} {name : String}

def tableOf (s : Session) (p : Package) : SymbolTable :=
  (s.tables.lookup p.path).getD (SymbolTable.ofPackage p false)

def SameTables (ws : Workspace) (s t : Session) : Prop :=
  ∀ p ∈ ws.packages, t.tableOf p = s.tableOf p

theorem Valid.tableOf (hs : s.Valid ws) (hp : p ∈ ws.packages) :
    ∃ tests, s.tableOf p = SymbolTable.ofPackage p tests := by
  rw [Session.tableOf]
  cases h : s.tables.lookup p.path with
  | none => exact ⟨false, rfl⟩
  | some table => exact hs.tables p hp table h

theorem table_spec (hws : ws.Distinct) (hp : p ∈ ws.packages) (s : Session) :
    (table p s).1 = s.tableOf p ∧ SameTables ws s (table p s).2 := by
  unfold Session.table tableWith
  cases h : s.tables.lookup p.path with
  | some found => exact ⟨by simp [tableOf, h], fun _ _ => rfl⟩
  | none =>
    refine ⟨by simp [tableOf, h, buildTable], fun q hq => ?_⟩
    simp only [tableOf, buildTable, Dict.lookup_put]
    split
    · next he =>
      obtain rfl := hws q hq p hp (by simpa using he)
      simp [h]
    · rfl

theorem ensureChecked_tables (p : Package) (s : Session) : SameTables ws s (ensureChecked p s).2 :=
  fun _ _ => rfl

def declaring? (ws : Workspace) (s : Session) (o : Object) (ps : List Package) : Option Symbol :=
  ps.findSome? fun p =>
    if p.key = o.package then (s.tableOf p).symbols.find? fun symbol => isDeclaredBy ws symbol o
    else none

theorem declaring?_congr {ps : List Package} (hps : ps ⊆ ws.packages) (h : SameTables ws s t) :
    declaring? ws t o ps = declaring? ws s o ps := by
  induction ps with
  | nil => rfl
  | cons p ps ih =>
    have ih := ih fun q hq => hps (List.mem_cons_of_mem p hq)
    simp only [declaring?, List.findSome?_cons] at ih ⊢
    rw [h p (hps List.mem_cons_self), ih]

theorem symbolOfObject?_of_key {ps : List Package} (hkey : p.key = o.package) (s : Session) :
    symbolOfObject? o (p :: ps) s =
      match (table p s).1.symbols.find? fun symbol => isDeclaredBy s.workspace symbol o with
      | some symbol => (some symbol, (table p s).2)
      | none => symbolOfObject? o ps (table p s).2 := by
  have hstep : symbolOfObject? o (p :: ps) s =
      (let found := (table p s).1.symbols.find? fun symbol => isDeclaredBy s.workspace symbol o
        if found.isSome then pure found else symbolOfObject? o ps : StateM Session _)
        (table p s).2 := by
    simp only [symbolOfObject?, if_pos hkey]
    rfl
  rw [hstep]
  cases (table p s).1.symbols.find? fun symbol => isDeclaredBy s.workspace symbol o with
  | none => rfl
  | some symbol => rfl

theorem symbolOfObject?_of_ne {ps : List Package} (hkey : p.key ≠ o.package) (s : Session) :
    symbolOfObject? o (p :: ps) s = symbolOfObject? o ps s := by
  simp only [symbolOfObject?, hkey, if_false]

theorem symbolOfObject?_spec (hws : ws.Distinct) {ps : List Package} (hps : ps ⊆ ws.packages)
    (hs : s.Valid ws) :
    ∃ t, symbolOfObject? o ps s = (declaring? ws s o ps, t) ∧ Leads ws s t ∧ SameTables ws s t := by
  induction ps generalizing s with
  | nil => exact ⟨s, rfl, hs.leads, fun _ _ => rfl⟩
  | cons p ps ih =>
    have hp := hps List.mem_cons_self
    have hps : ps ⊆ ws.packages := fun q hq => hps (List.mem_cons_of_mem p hq)
    by_cases hkey : p.key = o.package
    · obtain ⟨htable, hsame⟩ := table_spec hws hp s
      have hleads : Leads ws s (table p s).2 := keeps_tableWith hws hp false s hs
      rw [symbolOfObject?_of_key hkey, htable, hs.workspace, declaring?, List.findSome?_cons,
        if_pos hkey]
      cases (s.tableOf p).symbols.find? fun symbol => isDeclaredBy ws symbol o with
      | some symbol => exact ⟨_, rfl, hleads, hsame⟩
      | none =>
        obtain ⟨t, ht, hleads', hsame'⟩ := ih hps hleads.valid
        refine ⟨t, ht.trans ?_, hleads.trans hleads', fun q hq => (hsame' q hq).trans (hsame q hq)⟩
        rw [declaring?_congr hps hsame, declaring?]
    · rw [symbolOfObject?_of_ne hkey, declaring?, List.findSome?_cons, if_neg hkey]
      exact ih hps hs

theorem mem_of_declaring? {ps : List Package} (h : declaring? ws s o ps = some symbol) :
    ∃ p ∈ ps, symbol ∈ (s.tableOf p).symbols ∧ isDeclaredBy ws symbol o = true := by
  obtain ⟨p, hp, hfound⟩ := List.exists_of_findSome?_eq_some h
  split at hfound
  · exact ⟨p, hp, List.mem_of_find?_eq_some hfound, by simpa using List.find?_some hfound⟩
  · cases hfound

theorem declaring?_isSome {ps : List Package} (hp : p ∈ ps) (hkey : p.key = o.package)
    (hsymbol : symbol ∈ (s.tableOf p).symbols) (hdeclared : isDeclaredBy ws symbol o = true) :
    (declaring? ws s o ps).isSome := by
  rw [declaring?, List.findSome?_isSome_iff]
  refine ⟨p, hp, ?_⟩
  rw [if_pos hkey, List.find?_isSome]
  exact ⟨symbol, hsymbol, hdeclared⟩

theorem declaring?_of_spot (h : o.spot = none) (ps : List Package) :
    declaring? ws s o ps = none := by
  cases hd : declaring? ws s o ps with
  | none => rfl
  | some symbol =>
    obtain ⟨p, _, _, hdeclared⟩ := mem_of_declaring? hd
    simp [isDeclaredBy, h] at hdeclared

theorem resolve_spec (hws : ws.Distinct) (hp : p ∈ ws.packages) (name : String) (s : Session) :
    (resolve p name s).1 = resolveIn p (s.tableOf p) name := by
  rw [← (table_spec hws hp s).1]
  rfl

/-- A name is resolved to a symbol of the table or not found. -/
theorem mem_of_resolveIn {table : SymbolTable} (h : resolveIn p table name = .ok symbol) :
    symbol ∈ table.symbols := by
  have hmethods : ∀ {symbol}, symbol ∈ table.methods.flatMap (·.2) → symbol ∈ table.symbols :=
    fun h => List.mem_append_right _ h
  unfold resolveIn at h
  split at h
  · next receiver method _ =>
    split at h
    · next found hfound =>
      cases h
      have hmem := List.mem_of_find?_eq_some hfound
      cases hl : table.methods.lookup receiver with
      | none => simp [hl] at hmem
      | some ms =>
        rw [hl] at hmem
        exact hmethods (List.mem_flatMap.mpr ⟨_, Dict.mem_of_lookup hl, hmem⟩)
    · cases h
  · split at h
    · next found hfound =>
      cases h
      obtain ⟨bucket, hb, hl⟩ := List.exists_of_findSome?_eq_some hfound
      have hmem := List.mem_map_of_mem (f := (·.2)) (Dict.mem_of_lookup hl)
      simp only [List.mem_cons, List.not_mem_nil, or_false] at hb
      simp only [SymbolTable.symbols, List.mem_append]
      rcases hb with rfl | rfl | rfl | rfl
      · exact .inl (.inl (.inl (.inl hmem)))
      · exact .inl (.inl (.inl (.inr hmem)))
      · exact .inl (.inl (.inr hmem))
      · exact .inl (.inr hmem)
    · next hnamed =>
      cases h
      have hmem : symbol ∈ table.methodsNamed name := hnamed ▸ List.mem_cons_self
      exact hmethods (List.mem_filter.mp hmem).1
    · cases h
    · cases h

theorem kind_of_resolveIn {table : SymbolTable} {e : Failure} (h : resolveIn p table name = .error e) :
    e.kind = .symbolNotFound := by
  unfold resolveIn at h
  split at h
  · split at h
    · cases h
    · cases h
      rfl
  · split at h <;> cases h <;> rfl

theorem knownDefinition?_apply (p : Package) (file : String) (start : Nat) (s : Session) :
    knownDefinition? p file start s =
      (match s.checks.info? p with
        | none => pure none
        | some info =>
          match (info.uses.lookup ⟨file, start⟩).or (info.defs.lookup ⟨file, start⟩) with
          | some o => if o.spot.isSome then symbolOfObject? o s.workspace.packages else pure none
          | none => pure none : StateM Session _) s :=
  rfl

theorem knownDefinition?_spec (hws : ws.Distinct) (hs : s.Valid ws) {file : String} {start : Nat}
    {info : TypeInfo} (hi : s.checks.info? p = some info)
    (ho : info.uses.lookup ⟨file, start⟩ = some o) :
    ∃ t, knownDefinition? p file start s = (declaring? ws s o ws.packages, t) ∧
      Leads ws s t ∧ SameTables ws s t := by
  have hstep : knownDefinition? p file start s =
      (if o.spot.isSome then symbolOfObject? o ws.packages else pure none : StateM Session _) s := by
    rw [knownDefinition?_apply, hi, hs.workspace]
    simp only [ho, Option.some_or]
  rw [hstep]
  cases hspot : o.spot with
  | none =>
    refine ⟨s, ?_, hs.leads, fun _ _ => rfl⟩
    rw [declaring?_of_spot hspot]
    rfl
  | some spot => exact symbolOfObject?_spec hws (List.Subset.refl ws.packages) hs

theorem file?_eq (hws : ws.Loaded) (hf : f ∈ ws.files true) : ws.file? f.path = some f := by
  cases h : ws.file? f.path with
  | none => simpa using List.find?_eq_none.mp h f hf
  | some g =>
    have hpath : g.path = f.path := by simpa using List.find?_some h
    rw [hws.file_eq (List.mem_of_find?_eq_some h) hf hpath]

theorem definition_apply (path real : String) (offset : Int) (s : Session) :
    definition true path real offset s =
      (match (s.workspace.file? path).or (s.workspace.file? real) with
        | none => throw (notFound path "file not found in workspace")
        | some g =>
          match s.workspace.packageOfFile? g.path, identifierAt? g.tree offset with
          | none, _ => throw (notFound path "file not found in workspace")
          | some _, none => throw (notFound path ("no identifier at offset " ++ toString offset))
          | some p, some site =>
            liftM (typedDefinition? p g.path site.node.start) >>= fun found =>
              match found with
              | some symbol => pure symbol
              | none => resolve (packageOfSite s.workspace p g site) (g.text site.node) :
        Query Symbol) s :=
  rfl

theorem definition_eq (hws : ws.Loaded) (hs : s.Valid ws) (hp : p ∈ ws.packages) (hf : f ∈ p.files)
    (real : String) {offset : Int} {site : Site} (hsite : site ∈ Site.covering f.tree offset) :
    definition true f.path real offset s =
      match typedDefinition? p f.path site.node.start s with
      | (some symbol, t) => (.ok symbol, t)
      | (none, t) => resolve (packageOfSite ws p f site) (f.text site.node) t := by
  have hfws := Workspace.files_subset hp hf
  have hidentifier := identifierAt?_eq (hws.parsed f hfws).choose_spec hsite
  have hpackage := hws.packageOfFile? hp (List.mem_append_left p.testFiles hf)
  rw [definition_apply, hs.workspace, file?_eq hws hfws, Option.some_or]
  simp only [hpackage, hidentifier]
  have hlift : ∀ k : Option Symbol → Query Symbol,
      (liftM (typedDefinition? p f.path site.node.start) >>= k : Query Symbol) s =
        k (typedDefinition? p f.path site.node.start s).1
          (typedDefinition? p f.path site.node.start s).2 :=
    fun _ => rfl
  rw [hlift]
  generalize typedDefinition? p f.path site.node.start s = found
  obtain ⟨_ | symbol, t⟩ := found
  · rfl
  · rfl

/-- An identifier that is known to denote an object is answered by the symbol declared where the
object is, and by its name if there is none. -/
theorem definition_spec (hws : ws.Loaded) (hs : s.Valid ws) (hp : p ∈ ws.packages) (hf : f ∈ p.files)
    {real : String} {offset : Int} {site : Site} (hsite : site ∈ Site.covering f.tree offset)
    {info : TypeInfo} (hi : (definition true f.path real offset s).2.checks.info? p = some info)
    (ho : info.uses.lookup ⟨f.path, site.node.start⟩ = some o) :
    Leads ws s (definition true f.path real offset s).2 ∧
      (definition true f.path real offset s).1 =
        match declaring? ws s o ws.packages with
        | some symbol => .ok symbol
        | none =>
          let named := packageOfSite ws p f site
          resolveIn named (s.tableOf named) (f.text site.node) := by
  refine ⟨keeps_definition hws.distinct true _ _ _ s hs, ?_⟩
  let checked := (ensureChecked p s).2
  have hchecked : Leads ws s checked := keeps_ensureChecked hws.distinct hp s hs
  have hnamed := packageOfSite_mem hp f site
  have hknown := keeps_knownDefinition? hws.distinct p f.path site.node.start checked hchecked.valid
  have hdefinition : definition true f.path real offset s =
      match knownDefinition? p f.path site.node.start checked with
      | (some symbol, t) => (.ok symbol, t)
      | (none, t) => resolve (packageOfSite ws p f site) (f.text site.node) t :=
    definition_eq hws hs hp hf real hsite
  -- what was found by the check is what is known at the end
  have hlast : Leads ws checked (definition true f.path real offset s).2 := by
    rw [hdefinition]
    generalize hr : knownDefinition? p f.path site.node.start checked = r at hknown
    obtain ⟨_ | symbol, t⟩ := r
    · exact hknown.trans (keeps_resolve hws.distinct hnamed _ t hknown.valid)
    · exact hknown
  have hinfo : checked.checks.info? p = some info :=
    (hlast.checks.keeps p hp (begun_ensureChecked hws.distinct hp hs)).1 ▸ hi
  obtain ⟨t, ht, -, hsame⟩ := knownDefinition?_spec hws.distinct hchecked.valid hinfo ho
  have hsame : SameTables ws s t := fun q hq => (hsame q hq).trans (ensureChecked_tables p s q hq)
  rw [hdefinition, ht, declaring?_congr (List.Subset.refl _) (ensureChecked_tables p s)]
  cases declaring? ws s o ws.packages with
  | some symbol => rfl
  | none => exact (resolve_spec hws.distinct hnamed _ t).trans (by rw [hsame _ hnamed])

theorem Valid.written (hws : ws.Loaded) (hs : s.Valid ws) (hp : p ∈ ws.packages)
    (hsymbol : symbol ∈ (s.tableOf p).symbols) : symbol.Written (p.allFiles true) := by
  obtain ⟨tests, ht⟩ := hs.tableOf hp
  exact symbol_written hws hp (ht ▸ hsymbol)

theorem Written.mono {p : Package} (hp : p ∈ ws.packages) (h : symbol.Written (p.allFiles true)) :
    symbol.Written (ws.files true) := by
  obtain ⟨f, hf, n, hn⟩ := h
  exact ⟨f, List.mem_flatMap.mpr ⟨p, hp, hf⟩, n, hn⟩

theorem declaring?_isSome_iff (hws : ws.Loaded) (hs : s.Valid ws) (ho : o.Spelled ws.filesOf) :
    (declaring? ws s o ws.packages).isSome ↔
      ∃ q ∈ ws.packages, ∃ symbol ∈ (s.tableOf q).symbols, symbol.Declares ws o := by
  constructor
  · intro h
    obtain ⟨symbol, hd⟩ := Option.isSome_iff_exists.mp h
    obtain ⟨q, hq, hsymbol, hdeclared⟩ := mem_of_declaring? hd
    have hwritten := Written.mono hq (hs.written hws hq hsymbol)
    exact ⟨q, hq, symbol, hsymbol, (Symbol.declares_iff hws hwritten).mpr hdeclared⟩
  · rintro ⟨q, hq, symbol, hsymbol, hd⟩
    have hwritten := hs.written hws hq hsymbol
    exact declaring?_isSome hq (Symbol.key_eq hws hq hwritten ho hd) hsymbol
      ((Symbol.declares_iff hws (Written.mono hq hwritten)).mp hd)

/-- The definition of an identifier that is known to denote an object, whatever was asked before. It
agrees with what is known exactly if a symbol is declared where the object is, or the name of the
identifier is not that of a symbol; in the remaining case a symbol of that name is answered, whose
references do not include the identifier. -/
theorem definition_of_use {store : Files.Store} {root : String} {respectIgnore : Bool}
    {log : List LogRecord} (hstore : store.Proper)
    (hload : Load.workspace store root respectIgnore = (.ok ws, log)) (qs : List (Question ws))
    (hp : p ∈ ws.packages) (hf : f ∈ p.files) {real : String} {offset : Int} {site : Site}
    (hsite : site ∈ Site.covering f.tree offset) {info : TypeInfo}
    (hi : (definition true f.path real offset (askAll { workspace := ws } qs)).2.checks.info? p =
      some info)
    (ho : info.uses.lookup ⟨f.path, site.node.start⟩ = some o) :
    let before := askAll { workspace := ws } qs
    let answer := definition true f.path real offset before
    let named := packageOfSite ws p f site
    let byName := resolveIn named (before.tableOf named) (f.text site.node)
    let declared := ∃ q ∈ ws.packages, ∃ symbol ∈ (before.tableOf q).symbols, symbol.Declares ws o
    ((∃ symbol, answer.1 = .ok symbol ∧ symbol.Declares ws o) ∨
        (∃ e, answer.1 = .error e ∧ e.kind = .symbolNotFound) ↔
      declared ∨ ∃ e, byName = .error e) ∧
    (¬declared → answer.1 = byName) ∧
    ∀ symbol, answer.1 = .ok symbol →
      (symbol.Declares ws o ↔ declared) ∧
      (symbol.Declares ws o ↔
        ∃ u ∈ (references true symbol answer.2).1,
          u.file = f.path ∧ u.offset = site.node.start) := by
  intro before answer named byName declared
  have hws := Load.loaded hstore hload
  have hvalid : before.Valid ws := ((valid_fresh ws).askAll hws.distinct qs).valid
  obtain ⟨hleads, hanswer⟩ := definition_spec hws hvalid hp hf hsite hi ho
  have hspelled : o.Spelled ws.filesOf :=
    ((hleads.valid.ended p hp (Checks.begun_of_info hi)).founded hws hp hi _
      (Dict.mem_of_lookup ho)).1
  have hdeclared : (declaring? ws before o ws.packages).isSome ↔ declared :=
    declaring?_isSome_iff hws hvalid hspelled
  have hnamed : named ∈ ws.packages := packageOfSite_mem hp f site
  have hlocated : ∀ q ∈ ws.packages, ∀ symbol ∈ (before.tableOf q).symbols,
      (symbol.Declares ws o ↔ ∃ u ∈ (references true symbol answer.2).1,
        u.file = f.path ∧ u.offset = site.node.start) := by
    intro q hq symbol hsymbol
    obtain ⟨g, hg, n, hn⟩ := Written.mono hq (hvalid.written hws hq hsymbol)
    rw [located_iff hws hleads.valid hg hn hp hf hi ho,
      Symbol.declares_iff hws ⟨g, hg, n, hn⟩, hn.isDeclaredBy_iff hws hg]
  cases hd : declaring? ws before o ws.packages with
  | some found =>
    have hdeclared : declared := hdeclared.mp (by simp [hd])
    obtain ⟨q, hq, hsymbol, hfound⟩ := mem_of_declaring? hd
    have hfound : found.Declares ws o :=
      (Symbol.declares_iff hws (Written.mono hq (hvalid.written hws hq hsymbol))).mpr hfound
    have hanswer : answer.1 = .ok found := by rw [hanswer, hd]
    refine ⟨⟨fun _ => .inl hdeclared, fun _ => .inl ⟨found, hanswer, hfound⟩⟩,
      fun h => (h hdeclared).elim, fun symbol hok => ?_⟩
    obtain rfl : found = symbol := Except.ok.inj (hanswer.symm.trans hok)
    exact ⟨⟨fun _ => hdeclared, fun _ => hfound⟩, hlocated q hq found hsymbol⟩
  | none =>
    have hdeclared : ¬declared := fun h => by simpa [hd] using hdeclared.mpr h
    have hanswer : answer.1 = byName := by rw [hanswer, hd]
    have hother : ∀ symbol, answer.1 = .ok symbol →
        symbol ∈ (before.tableOf named).symbols ∧ ¬symbol.Declares ws o := by
      intro symbol hok
      have hmem := mem_of_resolveIn (hanswer.symm.trans hok)
      exact ⟨hmem, fun h => hdeclared ⟨named, hnamed, symbol, hmem, h⟩⟩
    refine ⟨⟨?_, ?_⟩, fun _ => hanswer, fun symbol hok => ?_⟩
    · rintro (⟨symbol, hok, h⟩ | ⟨e, he, _⟩)
      · exact ((hother symbol hok).2 h).elim
      · exact .inr ⟨e, hanswer ▸ he⟩
    · rintro (h | ⟨e, he⟩)
      · exact (hdeclared h).elim
      · exact .inr ⟨e, hanswer.trans he, kind_of_resolveIn he⟩
    · obtain ⟨hmem, hne⟩ := hother symbol hok
      exact ⟨⟨fun h => (hne h).elim, fun h => (hdeclared h).elim⟩, hlocated named hnamed symbol hmem⟩

/-- A variable of a function whose name is that of a variable of the package: the latter is answered,
although the identifier is known to denote the former. -/
theorem definition_of_use_shadow : ∃ ws log symbol, ∃ o : Object,
    Load.workspace Load.shadow "/ws" true = (.ok ws, log) ∧
    o.spot = some ⟨"/ws/main.go", 34⟩ ∧
    let answer := definition true "/ws/main.go" "/ws/main.go" 46 { workspace := ws }
    answer.1 = .ok symbol ∧ ¬symbol.Declares ws o ∧
      ¬∃ u ∈ (references true symbol answer.2).1, u.file = "/ws/main.go" ∧ u.offset = 46 := by
  obtain ⟨tree, htree, ⟨site, hsite, hstart⟩, ⟨info, hi, o, ho, hspot⟩, symbol, hok, hoffset⟩ :
      ∃ tree ∈ parse? Load.shadowed,
        let answer := definition true "/ws/main.go" "/ws/main.go" 46
          { workspace := Load.shadowWorkspace tree }
        (∃ site ∈ Site.covering tree 46, site.node.start = 46) ∧
          (∃ info ∈ answer.2.checks.info? (Load.shadowPackage tree),
            ∃ o ∈ info.uses.lookup ⟨"/ws/main.go", 46⟩, o.spot = some ⟨"/ws/main.go", 34⟩) ∧
          ∃ symbol ∈ answer.1.toOption, offsetOf? (Load.shadowWorkspace tree) symbol = some 15 := by
    decide +kernel
  obtain ⟨log, hload⟩ := Load.workspace_shadow htree
  have hws := Load.loaded Load.proper_shadow hload
  have hok : (definition true "/ws/main.go" "/ws/main.go" 46
      { workspace := Load.shadowWorkspace tree }).1 = .ok symbol := by
    cases h : (definition true "/ws/main.go" "/ws/main.go" 46
        { workspace := Load.shadowWorkspace tree }).1 with
    | error e => simp [h, Except.toOption] at hok
    | ok found => simpa [h, Except.toOption] using hok
  have hother : ¬symbol.Declares (Load.shadowWorkspace tree) o := by
    rintro ⟨f, hf, n, hn, hplace⟩
    have hfirst : n.start = 15 := by simpa [hoffset] using (hn.offsetOf? hws hf).symm
    have hsecond : n.start = 34 := by
      rw [hspot, Option.some.injEq, Spot.mk.injEq] at hplace
      exact hplace.2.symm
    omega
  have hlocated := (definition_of_use Load.proper_shadow hload [] (List.mem_singleton_self _)
    (List.mem_singleton_self _) hsite hi (hstart ▸ ho)).2.2 symbol hok
  refine ⟨_, log, symbol, o, hload, hspot, hok, hother, fun h => hother (hlocated.2.mpr ?_)⟩
  rw [hstart]
  exact h

end Session

end GoAtlas
