import GoAtlas.Proofs.Session.Definitions

namespace GoAtlas

open Syntax Check Reference

variable {ws : Workspace} {p q : Package} {f g : SourceFile}

/-- A file tells which package it is in. -/
theorem Workspace.Loaded.package_eq (hws : ws.Loaded) (hp : p ∈ ws.packages)
    (hq : q ∈ ws.packages) (hf : f ∈ p.allFiles true) (hg : g ∈ q.allFiles true)
    (hpath : f.path = g.path) : p = q := by
  have hfound := hws.packageOfFile? hp hf
  rw [hpath, hws.packageOfFile? hq hg] at hfound
  exact (Option.some.inj hfound).symm

/-- Names of one file that start at the same byte are the same. -/
theorem Naming.eq_of_start {size : Nat} {m n : Naming} (hr : Parsed size f.tree)
    (hm : m ∈ Naming.ofFile f) (hn : n ∈ Naming.ofFile f) (h : m.name.start = n.name.start) :
    m = n := by
  by_contra hne
  have : Std.Symm fun m n : Naming => m.name.start ≠ n.name.start := ⟨fun _ _ h => h.symm⟩
  exact (Naming.starts_ne hr).forall hm hn hne h

namespace Session

variable {s : Session} {symbol other : Symbol} {o : Object}

theorem Valid.declared (hs : s.Valid ws) (hp : p ∈ ws.packages)
    (hsymbol : symbol ∈ (s.tableOf p).symbols) :
    ∃ f ∈ p.allFiles true, ∃ n ∈ Naming.ofFile f, n.symbol f p.key = symbol := by
  obtain ⟨tests, htable⟩ := hs.tableOf hp
  rw [htable] at hsymbol
  obtain ⟨f, hf, hn⟩ := Symbol.mem_declared.mp (SymbolTable.declared_of_mem hsymbol)
  exact ⟨f, (p.allFiles_sublist tests).subset hf, hn⟩

/-- At most one symbol of all tables is declared where an object is. -/
theorem Valid.symbol_eq (hws : ws.Loaded) (hs : s.Valid ws) (hp : p ∈ ws.packages)
    (hq : q ∈ ws.packages) (hsymbol : symbol ∈ (s.tableOf p).symbols)
    (hother : other ∈ (s.tableOf q).symbols) (h : isDeclaredBy ws symbol o = true)
    (h' : isDeclaredBy ws other o = true) : symbol = other := by
  obtain ⟨f, hf, m, hm, rfl⟩ := hs.declared hp hsymbol
  obtain ⟨g, hg, n, hn, rfl⟩ := hs.declared hq hother
  have hfws := Workspace.mem_files hp hf
  have hgws := Workspace.mem_files hq hg
  obtain ⟨size, hr⟩ := hws.parsed f hfws
  obtain ⟨size', hr'⟩ := hws.parsed g hgws
  rw [(Naming.names (Naming.stands_ofFile hr hm)).isDeclaredBy_iff hws hfws] at h
  rw [(Naming.names (Naming.stands_ofFile hr' hn)).isDeclaredBy_iff hws hgws, h] at h'
  obtain ⟨hpath, hstart⟩ := Spot.mk.inj (Option.some.inj h')
  obtain rfl := hws.package_eq hp hq hf hg hpath
  obtain rfl := hws.file_eq hfws hgws hpath
  rw [Naming.eq_of_start hr hm hn hstart]

/-- The symbol declared where an object is, if there is one in any of the tables. -/
theorem declaring?_eq (hws : ws.Loaded) (hs : s.Valid ws) (hp : p ∈ ws.packages)
    (hsymbol : symbol ∈ (s.tableOf p).symbols) (ho : o.Spelled ws.filesOf)
    (h : symbol.Declares ws o) : declaring? ws s o ws.packages = some symbol := by
  have hsome := (declaring?_isSome_iff hws hs ho).mpr ⟨p, hp, symbol, hsymbol, h⟩
  obtain ⟨found, hfound⟩ := Option.isSome_iff_exists.mp hsome
  obtain ⟨q, hq, hmem, hdeclared⟩ := mem_of_declaring? hfound
  have hwritten := Written.mono hp (hs.written hws hp hsymbol)
  rw [hfound, hs.symbol_eq hws hp hq hsymbol hmem ((Symbol.declares_iff hws hwritten).mp h) hdeclared]

theorem tables_filterM {α : Type} {test : α → StateM Session Bool}
    (h : ∀ a s, (test a s).2.tables = s.tables) (l : List α) (s : Session) :
    (l.filterM test s).2.tables = s.tables := by
  suffices haux : ∀ acc s, (l.filterAuxM test acc s).2.tables = s.tables from haux [] s
  induction l with
  | nil => exact fun _ _ => rfl
  | cons a l ih => exact fun acc s => (ih _ _).trans (h a s)

theorem tables_infoOfFile (file : String) (s : Session) :
    (infoOfFile file s).2.tables = s.tables := by
  simp only [infoOfFile, bind_apply, get_apply]
  cases s.workspace.packageOfFile? file with
  | none => rfl
  | some p => rfl

theorem tables_keep (symbol : Symbol) (e : Entry) (s : Session) :
    (keep symbol e s).2.tables = s.tables := by
  rw [← tables_infoOfFile e.file s]
  simp only [keep, bind_apply]
  cases objectAt? (infoOfFile e.file s).1 e with
  | none => rfl
  | some o => rfl

theorem tables_index (types : Bool) (s : Session) : (index types s).2.tables = s.tables := by
  unfold index
  split
  · rfl
  · cases types with
    | false => rfl
    | true => rfl

theorem tables_references (symbol : Symbol) (s : Session) :
    (references true symbol s).2.tables = s.tables := by
  rw [references_eq]
  exact (tables_filterM (tables_keep symbol) _ _).trans (tables_index true s)

/-- A reference that is known to denote an object stands at an identifier of a checked file that
spells the symbol's name, and the object is declared where the symbol is. -/
theorem site_of_reference (hws : ws.Loaded) (hs : s.Valid ws) (hp : p ∈ ws.packages)
    (hsymbol : symbol ∈ (s.tableOf p).symbols) {u : Use}
    (hu : u ∈ (references true symbol s).1) {info : TypeInfo}
    (hq : ws.packageOfFile? u.file = some q)
    (hi : (references true symbol s).2.checks.info? q = some info)
    (ho : info.uses.lookup ⟨u.file, u.offset.toNat⟩ = some o) :
    o.Spelled ws.filesOf ∧ symbol.Declares ws o ∧ ∃ f ∈ q.files, f.path = u.file ∧
      ∃ site ∈ sitesOf (some f.tree) none f.tree.children, site.isIdentifier ∧
        u.offset = site.node.start ∧ f.text site.node = symbol.name := by
  have hqm : q ∈ ws.packages := List.mem_of_find?_eq_some hq
  obtain ⟨t, ht, hleads, -⟩ := references_spec hws hs symbol
  rw [ht] at hu hi
  obtain ⟨e, he, rfl⟩ := List.mem_map.mp hu
  obtain ⟨he, haccepts⟩ := List.mem_filter.mp he
  obtain ⟨g, hg, n, hn⟩ := Written.mono hp (hs.written hws hp hsymbol)
  have hfounded := (hleads.valid.ended q hqm (Checks.begun_of_info hi)).founded hws hqm hi _
    (Dict.mem_of_lookup ho)
  have hspot : o.spot = some ⟨g.path, n.start⟩ := by
    rcases (accepts_iff hws hg hn hq hi).mp haccepts with hnone | ⟨o', ho', hspot⟩
    · cases ho.symm.trans hnone
    · rw [Option.some.inj (ho.symm.trans ho')]
      exact hspot
  obtain ⟨f', hf', hfile', -⟩ :=
    hn.used_of_founded hws hg (Workspace.files_subset hqm) hfounded hspot
  obtain ⟨f, hf, site, hsite, hident, -, htext, rfl⟩ := Index.mem_uses.mp he
  obtain rfl := hws.file_eq hf (Workspace.files_subset hqm hf') hfile'
  exact ⟨hfounded.1, ⟨g, hg, n, hn, hspot⟩, f, hf', rfl, site, hsite, hident, rfl, htext⟩

/-- Each reference to a symbol of a current table that is known to denote something stands at an
identifier of the symbol's name, and the definition asked for anywhere inside that identifier is the
symbol, now and whatever is asked in between as long as the symbol is in the table. -/
theorem definition_of_reference {store : Files.Store} {root : String} {respectIgnore : Bool}
    {log : List LogRecord} (hstore : store.Proper)
    (hload : Load.workspace store root respectIgnore = (.ok ws, log)) (qs : List (Question ws))
    (hp : p ∈ ws.packages) {table : SymbolTable}
    (htable : (askAll { workspace := ws } qs).tables.lookup p.path = some table)
    (hsymbol : symbol ∈ table.symbols) :
    let found := references true symbol (askAll { workspace := ws } qs)
    found.2.tables.lookup p.path = some table ∧
    ∀ u ∈ found.1, ∀ q info o, ws.packageOfFile? u.file = some q →
      found.2.checks.info? q = some info →
      info.uses.lookup ⟨u.file, u.offset.toNat⟩ = some o →
      ∃ f ∈ q.files, f.path = u.file ∧
        ∃ site ∈ sitesOf (some f.tree) none f.tree.children, site.isIdentifier ∧
          u.offset = site.node.start ∧ site.node.start < site.node.stop ∧
          f.text site.node = symbol.name ∧
          ∀ (more : List (Question ws)) (current : SymbolTable),
            (found.2.askAll more).tables.lookup p.path = some current → symbol ∈ current.symbols →
            ∀ (real : String) (offset : Int), u.offset ≤ offset → offset < site.node.stop →
              (definition true u.file real offset (found.2.askAll more)).1 = .ok symbol := by
  intro found
  have hws := Load.loaded hstore hload
  have hvalid := ((valid_fresh ws).askAll hws.distinct qs).valid
  have hleads : Leads ws _ found.2 := keeps_references hws.distinct true symbol _ hvalid
  have hcurrent : symbol ∈ ((askAll { workspace := ws } qs).tableOf p).symbols := by
    rw [tableOf, htable]
    exact hsymbol
  constructor
  · rw [← htable]
    exact congrArg (·.lookup p.path) (tables_references symbol _)
  intro u hu q info o hq hi ho
  have hqm : q ∈ ws.packages := List.mem_of_find?_eq_some hq
  obtain ⟨hspelled, hdeclares, f, hf, hfile, site, hsite, hident, hoffset, htext⟩ :=
    site_of_reference hws hvalid hp hcurrent hu hq hi ho
  obtain ⟨size, hr⟩ := hws.parsed f (Workspace.files_subset hqm hf)
  refine ⟨f, hf, hfile, site, hsite, hident, hoffset, Site.start_lt_stop hr hsite hident, htext, ?_⟩
  intro more current hlookup hmem real offset hstart hstop
  have hlater : Leads ws found.2 (found.2.askAll more) := hleads.valid.askAll hws.distinct more
  have hcovering : site ∈ Site.covering f.tree offset :=
    Site.mem_covering.mpr ⟨hsite, hident, hoffset ▸ hstart, hstop⟩
  have hmem : symbol ∈ ((found.2.askAll more).tableOf p).symbols := by
    rw [tableOf, hlookup]
    exact hmem
  -- what is known of the package stays through the questions in between and through the last one
  have hknown := hlater.trans
    (keeps_definition hws.distinct true f.path real offset _ hlater.valid)
  have hinfo := (hknown.checks.keeps q hqm (Checks.begun_of_info hi)).1.trans hi
  rw [hoffset, Int.toNat_natCast, ← hfile] at ho
  rw [← hfile, (definition_spec hws hlater.valid hqm hf hcovering hinfo ho).2,
    declaring?_eq hws hlater.valid hp hmem hspelled hdeclares]

/-- A variable that one function uses and another hides behind a variable of its own: from the use the
definition leads back to the variable of the package. -/
theorem definition_of_reference_shadow : ∃ ws log p symbol,
    Load.workspace Load.shadow "/ws" true = (.ok ws, log) ∧ symbol.name = "x" ∧
    ∃ hp : p ∈ ws.packages,
      let found := references true symbol (askAll { workspace := ws } [.build p hp false])
      ∃ u ∈ found.1, u.file = "/ws/main.go" ∧ u.offset = 74 ∧
        (∃ info, found.2.checks.info? p = some info ∧
          (info.uses.lookup ⟨"/ws/main.go", 74⟩).isSome) ∧
        (definition true "/ws/main.go" "/ws/main.go" 74 found.2).1 = .ok symbol := by
  obtain ⟨tree, htree, symbol, hsymbol, hname, ⟨u, hu, hfile, hoffset⟩, info, hinfo, hknown⟩ :
      ∃ tree ∈ parse? Load.shadowed,
        let p := Load.shadowPackage tree
        let ws := Load.shadowWorkspace tree
        let asked : List (Question ws) := [.build p (List.mem_singleton_self p) false]
        ∃ symbol ∈ (SymbolTable.ofPackage p false).symbols, symbol.name = "x" ∧
          let found := references true symbol (askAll { workspace := ws } asked)
          (∃ u ∈ found.1, u.file = "/ws/main.go" ∧ u.offset = 74) ∧
            ∃ info ∈ found.2.checks.info? p, (info.uses.lookup ⟨"/ws/main.go", 74⟩).isSome = true := by
    decide +kernel
  obtain ⟨log, hload⟩ := Load.workspace_shadow htree
  let p := Load.shadowPackage tree
  have hp : p ∈ (Load.shadowWorkspace tree).packages := List.mem_singleton_self _
  obtain ⟨o, ho⟩ := Option.isSome_iff_exists.mp hknown
  have htable : (askAll { workspace := Load.shadowWorkspace tree }
      [.build p hp false]).tables.lookup p.path = some (SymbolTable.ofPackage p false) :=
    rfl
  have hpackage : (Load.shadowWorkspace tree).packageOfFile? u.file = some p := by
    rw [hfile]
    rfl
  obtain ⟨hkept, hback⟩ :=
    definition_of_reference Load.proper_shadow hload _ hp htable hsymbol
  obtain ⟨f, -, -, site, -, -, hstart, hlt, -, hdefinition⟩ :=
    hback u hu p info o hpackage hinfo (by rw [hfile, hoffset]; exact ho)
  have hanswer := hdefinition [] _ hkept hsymbol "/ws/main.go" 74 (by omega) (by omega)
  rw [hfile] at hanswer
  exact ⟨_, log, p, symbol, hload, hname, hp, u, hu, hfile, hoffset,
    ⟨info, hinfo, hknown⟩, hanswer⟩

end Session

end GoAtlas
