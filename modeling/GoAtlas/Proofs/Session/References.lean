import GoAtlas.Proofs.Check.Denotation
import GoAtlas.Proofs.Session.Runs
import GoAtlas.Proofs.Symbol.Tables

namespace GoAtlas

open Syntax Check Reference

variable {ws : Workspace} {p : Package} {f g : SourceFile}

theorem Package.allFiles_sublist (p : Package) (tests : Bool) :
    (p.allFiles tests).Sublist (p.allFiles true) := by
  cases tests with
  | true => exact List.Sublist.refl _
  | false => exact List.sublist_append_left _ _

theorem Workspace.mem_files {tests : Bool} (hp : p ∈ ws.packages) (hf : f ∈ p.allFiles tests) :
    f ∈ ws.files true :=
  List.mem_flatMap.mpr ⟨p, hp, (p.allFiles_sublist tests).subset hf⟩

namespace Workspace.Loaded

variable (h : ws.Loaded)
include h

/-- The position of a node of a file lies in the slot of the file. -/
theorem slot?_position {t : Tree} (hf : f ∈ ws.files true)
    (ht : t ∈ Tree.walkAll f.tree.children) :
    ws.registry.slot? (f.position t.start) = some f.slot := by
  obtain ⟨hparsed, hslot, -, hsize, -⟩ := h.registered f hf
  have hwithin := Tree.walkAll_within _ _ _ _ (parse?_parsed hparsed).row t ht
  have hle : t.start ≤ f.slot.size := by
    have := hwithin.2.2.le
    have := hwithin.2.1
    omega
  exact h.ordered.slot? hslot hle

theorem nodup_paths (hp : p ∈ ws.packages) (tests : Bool) :
    ((p.allFiles tests).map (·.path)).Nodup := by
  have hall := (List.nodup_flatMap.mp (List.map_flatMap ▸ h.paths)).1 p hp
  exact hall.sublist ((p.allFiles_sublist tests).map _)

theorem file_eq (hf : f ∈ ws.files true) (hg : g ∈ ws.files true) (he : f.path = g.path) : f = g :=
  List.inj_on_of_nodup_map h.paths hf hg he

/-- A file is found in the package that holds it. -/
theorem packageOfFile? (hp : p ∈ ws.packages) (hf : f ∈ p.allFiles true) :
    ws.packageOfFile? f.path = some p := by
  cases hq : ws.packageOfFile? f.path with
  | none =>
    have := List.find?_eq_none.mp hq p hp
    simp only [Bool.not_eq_true, List.any_eq_false, beq_iff_eq] at this
    exact (this f hf rfl).elim
  | some q =>
    have hqf := List.find?_some hq
    obtain ⟨g, hg, he⟩ := List.any_eq_true.mp hqf
    have hqm : q ∈ ws.packages := List.mem_of_find?_eq_some hq
    have hdisjoint := (List.nodup_flatMap.mp (List.map_flatMap ▸ h.paths)).2
    by_contra hne
    have : Std.Symm fun a b : Package => List.Disjoint ((a.allFiles true).map (·.path))
        ((b.allFiles true).map (·.path)) := ⟨fun _ _ h _ ha hb => h hb ha⟩
    refine hdisjoint.forall hqm hp (fun he => hne (congrArg some he)) (List.mem_map_of_mem hg) ?_
    exact List.mem_map.mpr ⟨f, hf, (beq_iff_eq.mp he).symm⟩

end Workspace.Loaded

namespace Symbol.Names

variable {t : Tree} {s : Symbol} {o : Object}

section

variable (h : s.Names f t) (hws : ws.Loaded) (hf : f ∈ ws.files true)
include h hws hf

/-- The position of a symbol leads back to the place of its name. -/
theorem offsetOf? : Session.offsetOf? ws s = some t.start := by
  have hoffset : (f.position t.start - f.slot.base : Int).toNat = t.start := by
    simp only [SourceFile.position]
    omega
  rw [Session.offsetOf?, h.position, hws.slot?_position hf h.mem, Option.map_some, hoffset]

theorem isDeclaredBy_iff :
    Session.isDeclaredBy ws s o = true ↔ o.spot = some ⟨f.path, t.start⟩ := by
  rw [Session.isDeclaredBy, h.offsetOf? hws hf]
  cases o.spot with
  | none => simp
  | some spot => cases spot; simp [h.file]

theorem name_eq (ho : o.Spelled ws.filesOf) (hspot : o.spot = some ⟨f.path, t.start⟩) :
    o.name = s.name := by
  obtain ⟨g, hg, hpath, u, hu, hm, hstart, hname⟩ := ho _ hspot
  obtain ⟨p, hp, _, hg⟩ := Workspace.mem_filesOf.mp hg
  have hg := Workspace.files_subset hp hg
  obtain rfl := hws.file_eq hg hf hpath
  obtain rfl := (parse?_parsed (hws.registered g hg).parsed).row.mark_eq hu h.mem hm h.mark hstart
  rw [h.name, ← hname]

theorem not_local (hg : g ∈ ws.files true) (ho : o.Local g) :
    o.spot ≠ some ⟨f.path, t.start⟩ := by
  intro hspot
  obtain ⟨hpath, n, ⟨q, d, c, hd, hc, hfield, u, hu, hm, hne, -, rfl⟩, hstart, -⟩ := ho _ hspot
  obtain rfl := hws.file_eq hf hg hpath
  have hparsed := parse?_parsed (hws.registered f hf).parsed
  rcases h.top with ⟨q', d', hd', ht⟩ | hk
  · exact hd.start_ne hparsed hc hfield (mem_walk_of_mem_sites hu) hm hd' ht h.mark hstart
  · have hmem := mem_walkAll_of_mem_sitesOf (hd.mem_sitesOf hc hu)
    exact hne (hparsed.row.mark_eq hmem h.mem hm h.mark hstart ▸ hk)

/-- Where an object declared at a symbol's place is recorded, an identifier spells the symbol's name
without declaring it. -/
theorem used_of_founded {own : List SourceFile} {spot : Spot} (hown : own ⊆ ws.files true)
    (ho : Founded own ws.filesOf spot o) (hspot : o.spot = some ⟨f.path, t.start⟩) :
    ∃ g ∈ own, spot.file = g.path ∧
      ∃ u ∈ sitesOf (some g.tree) none g.tree.children, u.isIdentifier ∧
        u.isDeclaration = false ∧ u.node.start = spot.offset ∧ g.text u.node = s.name := by
  obtain ⟨hspelled, g, hg, hfile, hlocal | ⟨n, ⟨u, hu, hi, hd, rfl⟩, hstart, hname⟩⟩ := ho
  · exact (h.not_local hws hf (hown hg) hlocal hspot).elim
  · exact ⟨g, hg, hfile, u, hu, hi, hd, hstart, hname.trans (h.name_eq hws hf hspelled hspot)⟩

end

end Symbol.Names

namespace Session

variable {s t : Session} {symbol : Symbol} {e : Entry}

def known? (ws : Workspace) (s : Session) (e : Entry) : Option Object :=
  objectAt? ((ws.packageOfFile? e.file).bind s.checks.info?) e

def accepts (ws : Workspace) (s : Session) (symbol : Symbol) (e : Entry) : Bool :=
  match s.known? ws e with
  | some o => isDeclaredBy ws symbol o
  | none => true

def keep (symbol : Symbol) (e : Entry) : StateM Session Bool := do
  match objectAt? (← infoOfFile e.file) e with
  | some o => pure (isDeclaredBy (← get).workspace symbol o)
  | none => pure true

def useOf (symbol : Symbol) (e : Entry) : Use :=
  ⟨symbol, e.file, e.line, e.column, e.offset, e.context⟩

theorem references_eq (symbol : Symbol) (s : Session) :
    references true symbol s =
      let kept := ((index true s).1.uses symbol.name).filterM (keep symbol) (index true s).2
      (kept.1.map (useOf symbol), kept.2) :=
  rfl

theorem index_eq (hs : s.Valid ws) (types : Bool) :
    (index types s).1 = Index.ofFiles (ws.files true) := by
  unfold index
  split
  · next i hi =>
    cases types with
    | false => exact hs.plainIndex i hi
    | true => exact hs.typedIndex i hi
  · rw [← hs.workspace]
    rfl

theorem begun_ensureChecked (hws : ws.Distinct) (hp : p ∈ ws.packages) (hs : s.Valid ws) :
    (ensureChecked p s).2.checks.Begun p := by
  have h := (Checks.ensures_ensure hws p hp s.checks hs.sound).2.2
  rw [← hs.workspace] at h
  exact h

theorem accepts_of_leads (hp : ws.packageOfFile? e.file = some p) (hb : s.checks.Begun p)
    (h : Leads ws s t) : t.accepts ws symbol e = s.accepts ws symbol e := by
  have hm : p ∈ ws.packages := List.mem_of_find?_eq_some hp
  rw [accepts, accepts, known?, known?, hp, Option.bind_some, Option.bind_some,
    (h.checks.keeps p hm hb).1]

theorem keep_spec (hws : ws.Distinct) (hp : ws.packageOfFile? e.file = some p) (hs : s.Valid ws)
    (symbol : Symbol) :
    ∃ t, keep symbol e s = (t.accepts ws symbol e, t) ∧ Leads ws s t ∧ t.checks.Begun p := by
  have hm : p ∈ ws.packages := List.mem_of_find?_eq_some hp
  have hleads := keeps_ensureChecked hws hm s hs
  have hinfo : infoOfFile e.file s =
      ((ensureChecked p s).2.checks.info? p, (ensureChecked p s).2) := by
    have hp' : s.workspace.packageOfFile? e.file = some p := hs.workspace ▸ hp
    simp only [infoOfFile, bind_apply, get_apply, hp', pure_apply]
  refine ⟨(ensureChecked p s).2, ?_, hleads, begun_ensureChecked hws hm hs⟩
  simp only [keep, bind_apply, hinfo, accepts, known?, hp, Option.bind_some]
  cases objectAt? ((ensureChecked p s).2.checks.info? p) e with
  | none => rfl
  | some o =>
    simp only [bind_apply, get_apply, pure_apply, hleads.valid.workspace]

theorem filterM_keep (hws : ws.Distinct) (symbol : Symbol) {es : List Entry}
    (hes : ∀ e ∈ es, (ws.packageOfFile? e.file).isSome) (hs : s.Valid ws) :
    ∃ t, es.filterM (keep symbol) s = (es.filter (t.accepts ws symbol), t) ∧ Leads ws s t ∧
      ∀ e ∈ es, ∀ p, ws.packageOfFile? e.file = some p → t.checks.Begun p := by
  -- the list kept so far is gathered in reverse
  suffices haux : ∀ acc, ∃ t, es.filterAuxM (keep symbol) acc s =
      ((es.filter (t.accepts ws symbol)).reverse ++ acc, t) ∧ Leads ws s t ∧
      ∀ e ∈ es, ∀ p, ws.packageOfFile? e.file = some p → t.checks.Begun p by
    obtain ⟨t, ht, hleads, hb⟩ := haux []
    refine ⟨t, ?_, hleads, hb⟩
    simp only [List.filterM, bind_apply, ht, pure_apply, List.append_nil, List.reverse_reverse]
  induction es generalizing s with
  | nil => exact fun acc => ⟨s, rfl, hs.leads, by simp⟩
  | cons e es ih =>
    intro acc
    obtain ⟨p, hp⟩ := Option.isSome_iff_exists.mp (hes e List.mem_cons_self)
    obtain ⟨t, ht, hleads, hb⟩ := keep_spec hws hp hs symbol
    obtain ⟨u, hu, hleads', hb'⟩ := ih (fun e' he' => hes e' (List.mem_cons_of_mem e he'))
      hleads.valid (bif t.accepts ws symbol e then e :: acc else acc)
    have hm : p ∈ ws.packages := List.mem_of_find?_eq_some hp
    refine ⟨u, ?_, hleads.trans hleads', ?_⟩
    · simp only [List.filterAuxM, bind_apply, ht, hu, List.filter_cons,
        accepts_of_leads hp hb hleads']
      cases t.accepts ws symbol e <;> simp
    · refine List.forall_mem_cons.mpr ⟨fun q hq => ?_, hb'⟩
      obtain rfl := Option.some.inj (hp.symm.trans hq)
      exact hleads'.checks.begun hm hb

theorem packageOfFile?_use (hws : ws.Loaded)
    (he : e ∈ (Index.ofFiles (ws.files true)).uses symbol.name) :
    ∃ p ∈ ws.packages, ws.packageOfFile? e.file = some p := by
  obtain ⟨f, hf, u, _, _, _, _, rfl⟩ := Index.mem_uses.mp he
  obtain ⟨p, hp, hf⟩ := List.mem_flatMap.mp hf
  exact ⟨p, hp, hws.packageOfFile? hp hf⟩

/-- The references to a symbol are the uses of its name that are accepted in the end, when the
packages of all of them have been checked. -/
theorem references_spec (hws : ws.Loaded) (hs : s.Valid ws) (symbol : Symbol) :
    ∃ t, references true symbol s =
        ((((Index.ofFiles (ws.files true)).uses symbol.name).filter (t.accepts ws symbol)).map
          (useOf symbol), t) ∧ Leads ws s t ∧
      ∀ e ∈ (Index.ofFiles (ws.files true)).uses symbol.name, ∀ p,
        ws.packageOfFile? e.file = some p → t.checks.Begun p := by
  have hindex := keeps_index true s hs
  have hes : ∀ e ∈ (Index.ofFiles (ws.files true)).uses symbol.name,
      (ws.packageOfFile? e.file).isSome := by
    intro e he
    obtain ⟨p, _, hp⟩ := packageOfFile?_use hws he
    simp [hp]
  obtain ⟨t, ht, hleads, hb⟩ := filterM_keep hws.distinct symbol hes hindex.valid
  refine ⟨t, ?_, hindex.trans hleads, hb⟩
  simp only [references_eq, index_eq hs true, ht]

theorem symbol_written (hws : ws.Loaded) (hp : p ∈ ws.packages) {tests : Bool}
    (hsymbol : symbol ∈ (SymbolTable.ofPackage p tests).symbols) :
    symbol.Written (p.allFiles true) := by
  have hparsed : ∀ f ∈ p.allFiles tests, ∃ size, Parsed size f.tree :=
    fun f hf => hws.parsed f (Workspace.mem_files hp hf)
  obtain ⟨f, hf, n, hn⟩ := SymbolTable.written_ofPackage hparsed hsymbol
  exact ⟨f, (p.allFiles_sublist tests).subset hf, n, hn⟩

theorem accepts_iff {n : Tree} (hws : ws.Loaded) (hf : f ∈ ws.files true)
    (hn : symbol.Names f n) (hp : ws.packageOfFile? e.file = some p) {info : TypeInfo}
    (hi : t.checks.info? p = some info) :
    t.accepts ws symbol e = true ↔
      info.uses.lookup ⟨e.file, e.offset.toNat⟩ = none ∨
        ∃ o, info.uses.lookup ⟨e.file, e.offset.toNat⟩ = some o ∧
          o.spot = some ⟨f.path, n.start⟩ := by
  have hknown : t.known? ws e = info.uses.lookup ⟨e.file, e.offset.toNat⟩ := by
    rw [known?, hp, Option.bind_some, hi, objectAt?, Option.bind_some]
  rw [accepts, hknown]
  cases info.uses.lookup ⟨e.file, e.offset.toNat⟩ with
  | none => simp
  | some o => simp [hn.isDeclaredBy_iff hws hf]

theorem mem_references_iff (hws : ws.Loaded) (hs : s.Valid ws)
    (he : e ∈ (Index.ofFiles (ws.files true)).uses symbol.name) :
    useOf symbol e ∈ (references true symbol s).1 ↔
      (references true symbol s).2.accepts ws symbol e = true := by
  obtain ⟨t, ht, -, -⟩ := references_spec hws hs symbol
  rw [ht, List.mem_map]
  refine ⟨fun ⟨e', he', heq⟩ => ?_, fun h => ⟨e, List.mem_filter.mpr ⟨he, h⟩, rfl⟩⟩
  obtain ⟨he', h⟩ := List.mem_filter.mp he'
  have hplace : e'.place = e.place := congrArg (fun u : Use => (u.file, u.offset)) heq
  have hnodup := Index.nodup_uses hws.paths hws.parsed symbol.name
  exact List.inj_on_of_nodup_map hnodup he' he hplace ▸ h

theorem mem_references_of_known {q : Package} {n : Tree} {info : TypeInfo} {spot : Spot}
    {o : Object} (hws : ws.Loaded) (hs : s.Valid ws) (hf : f ∈ ws.files true)
    (hn : symbol.Names f n) (hq : q ∈ ws.packages)
    (hleads : Leads ws (references true symbol s).2 t) (hi : t.checks.info? q = some info)
    (ho : info.uses.lookup spot = some o) (hspot : o.spot = some ⟨f.path, n.start⟩) :
    ∃ u ∈ (references true symbol s).1, u.file = spot.file ∧ u.offset = spot.offset := by
  have hfounded := (hleads.valid.ended q hq (Checks.begun_of_info hi)).founded hws hq hi _
    (Dict.mem_of_lookup ho)
  obtain ⟨g, hg, hfile, u, hu, hident, hdecl, hstart, htext⟩ :=
    hn.used_of_founded hws hf (Workspace.files_subset hq) hfounded hspot
  have hentry : Entry.ofSite g u ∈ (Index.ofFiles (ws.files true)).uses symbol.name :=
    Index.mem_uses.mpr ⟨g, Workspace.files_subset hq hg, u, hu, hident, hdecl, htext, rfl⟩
  have hpackage : ws.packageOfFile? (Entry.ofSite g u).file = some q :=
    hws.packageOfFile? hq (List.mem_append_left _ hg)
  refine ⟨useOf symbol (Entry.ofSite g u), (mem_references_iff hws hs hentry).mpr ?_, hfile.symm,
    congrArg Int.ofNat hstart⟩
  -- the package of the occurrence had been checked by then, and what was found stays
  obtain ⟨t', ht', -, hbegun⟩ := references_spec hws hs symbol
  rw [ht'] at hleads ⊢
  have hinfo := (hleads.checks.keeps q hq (hbegun _ hentry q hpackage)).1 ▸ hi
  refine (accepts_iff hws hf hn hpackage hinfo).mpr (.inr ⟨o, ?_, hspot⟩)
  have hplace : (⟨(Entry.ofSite g u).file, (Entry.ofSite g u).offset.toNat⟩ : Spot) = spot := by
    cases spot
    simp_all
  rw [hplace, ho]

/-- A place that is known to denote an object is among the references to the symbols declared where
the object is, and to no others. -/
theorem located_iff {n : Tree} {info : TypeInfo} {start : Nat} {o : Object} (hws : ws.Loaded)
    (hs : s.Valid ws) (hg : g ∈ ws.files true) (hn : symbol.Names g n) (hp : p ∈ ws.packages)
    (hf : f ∈ p.files) (hi : s.checks.info? p = some info)
    (ho : info.uses.lookup ⟨f.path, start⟩ = some o) :
    (∃ u ∈ (references true symbol s).1, u.file = f.path ∧ u.offset = start) ↔
      o.spot = some ⟨g.path, n.start⟩ := by
  obtain ⟨t, ht, hleads, -⟩ := references_spec hws hs symbol
  have hinfo : t.checks.info? p = some info :=
    ((hleads.checks.keeps p hp (Checks.begun_of_info hi)).1).trans hi
  constructor
  · rintro ⟨u, hu, hfile, hoffset⟩
    rw [ht] at hu
    obtain ⟨e, he, rfl⟩ := List.mem_map.mp hu
    have hfile : e.file = f.path := hfile
    have hoffset : e.offset = start := hoffset
    have hpackage : ws.packageOfFile? e.file = some p :=
      hfile ▸ hws.packageOfFile? hp (List.mem_append_left _ hf)
    have hplace : (⟨e.file, e.offset.toNat⟩ : Spot) = ⟨f.path, start⟩ := by
      rw [hfile, hoffset, Int.toNat_natCast]
    rcases (accepts_iff hws hg hn hpackage hinfo).mp (List.mem_filter.mp he).2 with h | ⟨o', h, hspot⟩
    · simp [hplace, ho] at h
    · rw [hplace, ho] at h
      exact Option.some.inj h ▸ hspot
  · have hleads' : Leads ws (references true symbol s).2 t := by
      rw [ht]
      exact hleads.valid.leads
    exact mem_references_of_known hws hs hg hn hp hleads' hinfo ho

/-- The references to a symbol, whatever was asked before: a use of its name is among them unless it
is known to denote something else, everything that is ever known to denote the symbol is among them,
and they stand in the order of the index, each place once. -/
theorem references_exact {store : Files.Store} {root : String} {respectIgnore : Bool}
    {log : List LogRecord} (hstore : store.Proper)
    (hload : Load.workspace store root respectIgnore = (.ok ws, log)) (qs : List (Question ws))
    (hp : p ∈ ws.packages) {table : SymbolTable}
    (htable : (askAll { workspace := ws } qs).tables.lookup p.path = some table)
    (hsymbol : symbol ∈ table.symbols) :
    let found := references true symbol (askAll { workspace := ws } qs)
    let entries := (Index.ofFiles (ws.files true)).uses symbol.name
    ∃ f ∈ p.allFiles true, ∃ n, symbol.Names f n ∧
      (∀ e ∈ entries, ∃ q ∈ ws.packages, ∃ info, ws.packageOfFile? e.file = some q ∧
        found.2.checks.info? q = some info ∧
        (useOf symbol e ∈ found.1 ↔
          info.uses.lookup ⟨e.file, e.offset.toNat⟩ = none ∨
            ∃ o, info.uses.lookup ⟨e.file, e.offset.toNat⟩ = some o ∧
              o.spot = some ⟨f.path, n.start⟩)) ∧
      (∀ more : List (Question ws), ∀ q ∈ ws.packages, ∀ info,
        (found.2.askAll more).checks.info? q = some info →
        ∀ spot o, info.uses.lookup spot = some o → o.spot = some ⟨f.path, n.start⟩ →
          ∃ u ∈ found.1, u.file = spot.file ∧ u.offset = spot.offset) ∧
      found.1.Sublist (entries.map (useOf symbol)) ∧
      (found.1.map fun u => (u.file, u.offset)).Nodup := by
  intro found entries
  have hws := Load.loaded hstore hload
  have hvalid := ((valid_fresh ws).askAll hws.distinct qs).valid
  obtain ⟨tests, rfl⟩ := hvalid.tables p hp table htable
  obtain ⟨f, hf, n, hn⟩ := symbol_written hws hp hsymbol
  have hfws : f ∈ ws.files true := List.mem_flatMap.mpr ⟨p, hp, hf⟩
  obtain ⟨t, ht, hleads, hbegun⟩ := references_spec hws hvalid symbol
  have hfound : found = (_, t) := ht
  refine ⟨f, hf, n, hn, fun e he => ?_, fun more q hq info hi spot o ho hspot => ?_, ?_, ?_⟩
  · obtain ⟨q, hq, hfile⟩ := packageOfFile?_use hws he
    obtain ⟨info, hi⟩ := Option.isSome_iff_exists.mp (hbegun e he q hfile)
    refine ⟨q, hq, info, hfile, hfound ▸ hi, (mem_references_iff hws hvalid he).trans ?_⟩
    rw [ht]
    exact accepts_iff hws hfws hn hfile hi
  · have hlater : Leads ws found.2 (found.2.askAll more) :=
      Valid.askAll hws.distinct (hfound ▸ hleads.valid) more
    exact mem_references_of_known hws hvalid hfws hn hq hlater hi ho hspot
  · rw [hfound]
    exact List.filter_sublist.map _
  · rw [hfound, List.map_map]
    exact (Index.nodup_uses hws.paths hws.parsed symbol.name).sublist
      (List.filter_sublist.map Entry.place)

end Session

namespace Load

/-- A package with a variable whose name a function declares once more. -/
def shadowed : ByteArray :=
  ("package p\n\nvar x = 1\n\nfunc f() \x7b\n\tx := 2\n\t_ = x\n\x7d\n\n"
    ++ "func g() int \x7b\n\treturn x\n\x7d\n").toUTF8

def shadow : Files.Store :=
  sole shadowed

theorem proper_shadow : shadow.Proper :=
  proper_sole shadowed

def shadowPackage (tree : Syntax.Tree) : Package :=
  solePackage shadowed tree

def shadowWorkspace (tree : Syntax.Tree) : Workspace :=
  soleWorkspace shadowed tree

theorem workspace_shadow {tree : Syntax.Tree} (h : Syntax.parse? shadowed = some tree) :
    ∃ log, workspace shadow "/ws" true = (.ok (shadowWorkspace tree), log) := by
  obtain ⟨t, ht, hname, himports⟩ : ∃ t ∈ Syntax.parse? shadowed,
      t.packageName shadowed = "p" ∧ t.imports shadowed = [] := by
    decide +kernel
  obtain rfl := Option.some.inj (h.symm.trans ht)
  exact (single_sole shadowed).workspace h hname himports

end Load

namespace Session

/-- The references to a variable whose name a function declares once more. -/
theorem references_exact_shadow : ∃ ws log p symbol,
    Load.workspace Load.shadow "/ws" true = (.ok ws, log) ∧ symbol.name = "x" ∧
    ∃ hp : p ∈ ws.packages,
      let found := references true symbol (askAll { workspace := ws } [.build p hp false])
      found.1.Sublist (((Index.ofFiles (ws.files true)).uses "x").map (useOf symbol)) ∧
      (found.1.map fun u => (u.file, u.offset)).Nodup := by
  obtain ⟨tree, htree, symbol, hsymbol, hname⟩ : ∃ tree ∈ parse? Load.shadowed,
      ∃ symbol ∈ (SymbolTable.ofPackage (Load.shadowPackage tree) false).symbols, symbol.name = "x" := by
    decide +kernel
  obtain ⟨log, hload⟩ := Load.workspace_shadow htree
  have hp : Load.shadowPackage tree ∈ (Load.shadowWorkspace tree).packages := List.mem_singleton_self _
  have htable : (askAll { workspace := Load.shadowWorkspace tree }
      [.build (Load.shadowPackage tree) hp false]).tables.lookup (Load.shadowPackage tree).path =
        some (SymbolTable.ofPackage (Load.shadowPackage tree) false) :=
    rfl
  obtain ⟨f, _, n, _, _, _, hsublist, hnodup⟩ :=
    references_exact Load.proper_shadow hload _ hp htable hsymbol
  exact ⟨_, log, _, symbol, hload, hname, hp, hname ▸ hsublist, hnodup⟩

end Session

end GoAtlas
