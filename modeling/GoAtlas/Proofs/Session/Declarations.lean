import GoAtlas.Proofs.Check.Integrity
import GoAtlas.Proofs.Session.References

namespace GoAtlas

open Syntax Check Reference

variable {ws : Workspace} {p : Package} {f : SourceFile}

namespace Check

def isUnmarked (s : Site) : Bool :=
  isSwitchAlias s || isTypeArgument s

theorem isDeclaration_of_isUnmarked {s : Site} (h : isUnmarked s) : s.isDeclaration = false := by
  obtain ⟨node, parent, grandparent⟩ := s
  cases parent with
  | none => rfl
  | some p =>
    simp only [isUnmarked, isSwitchAlias, isTypeArgument, Option.any_some, Bool.or_eq_true,
      Bool.and_eq_true, decide_eq_true_eq] at h
    rcases h with ⟨hk, hf⟩ | ⟨hk, -⟩
    · cases grandparent <;> simp [Site.isDeclaration, Site.declaresName, Site.isFreshTarget, hk, hf]
    · simp [Site.isDeclaration, Site.declaresName, Site.isFreshTarget, Site.bindsTargets, hk]

theorem Introduced.isUnmarked {own : List SourceFile} {size : Nat} {site : Site} (hown : Apart own)
    (hf : f ∈ own) (hr : Parsed size f.tree)
    (hsite : site ∈ sitesOf (some f.tree) none f.tree.children) (hi : site.isIdentifier)
    (hd : site.isDeclaration = false) (h : Introduced own ⟨f.path, site.node.start⟩) :
    isUnmarked site := by
  obtain ⟨g, hg, hpath, htop | hwithin⟩ := h
  · obtain rfl := hown.eq hg hf hpath
    obtain ⟨t, htop, hstart⟩ := htop
    have hused : (Ident.of g.content site.node).UsedIn g := ⟨site, hsite, hi, hd, rfl⟩
    exact (htop.start_ne hr hused hstart.symm).elim
  · obtain rfl := hown.eq hg hf hpath
    obtain ⟨n, ⟨q, d, c, hdecl, hc, -, u, hu, hm, -, hkind, rfl⟩, hstart⟩ := hwithin
    have hu := hdecl.mem_sitesOf hc hu
    have hnode : u.node = site.node := hr.row.mark_eq (mem_walkAll_of_mem_sitesOf hu)
      (mem_walkAll_of_mem_sitesOf hsite) hm (Kind.isMark_of_isIdentifier hi) hstart
    have hui : u.isIdentifier := by
      rw [Site.isIdentifier, hnode]
      exact hi
    obtain rfl := Site.eq_of_start hr hu hui hsite hi hstart
    rcases hkind with hkind | hkind
    · simp [hd] at hkind
    · simpa [Check.isUnmarked] using hkind

end Check

namespace Session

variable {symbol : Symbol}

/-- The declarations among the references to a symbol, whatever is asked before or after: those of
its name that the index does not mark. -/
theorem references_declared {store : Files.Store} {root : String} {respectIgnore : Bool}
    {log : List LogRecord} (hstore : store.Proper)
    (hload : Load.workspace store root respectIgnore = (.ok ws, log)) (qs : List (Question ws))
    (hp : p ∈ ws.packages) {table : SymbolTable}
    (htable : (askAll { workspace := ws } qs).tables.lookup p.path = some table)
    (hsymbol : symbol ∈ table.symbols) :
    let found := references true symbol (askAll { workspace := ws } qs)
    ∀ more : List (Question ws), ∀ q ∈ ws.packages, ∀ info,
      (found.2.askAll more).checks.info? q = some info →
      ∀ spot, (info.defs.lookup spot).isSome →
        ((∃ u ∈ found.1, u.file = spot.file ∧ u.offset = spot.offset) ↔
          ∃ f ∈ q.files, f.path = spot.file ∧
            ∃ site ∈ sitesOf (some f.tree) none f.tree.children, site.isIdentifier ∧
              site.node.start = spot.offset ∧ f.text site.node = symbol.name ∧
              isUnmarked site) := by
  intro found more q hq info hinfo spot hspot
  have hws := Load.loaded hstore hload
  have hvalid := ((valid_fresh ws).askAll hws.distinct qs).valid
  obtain ⟨tests, rfl⟩ := hvalid.tables p hp table htable
  obtain ⟨g, hg, n, hn⟩ := symbol_written hws hp hsymbol
  have hgws : g ∈ ws.files true := List.mem_flatMap.mpr ⟨p, hp, hg⟩
  obtain ⟨t, ht, hleads, hbegun⟩ := references_spec hws hvalid symbol
  have hfound : found = (_, t) := ht
  have hlater : Leads ws t (found.2.askAll more) :=
    hfound ▸ Valid.askAll hws.distinct hleads.valid more
  have hended := hlater.valid.ended q hq (Checks.begun_of_info hinfo)
  obtain ⟨o, ho⟩ := Option.isSome_iff_exists.mp hspot
  obtain ⟨-, hintro⟩ := (hended.recorded hws hq hinfo).1.defined spot o ho
  constructor
  · rintro ⟨u, hu, hfile, hoffset⟩
    rw [hfound] at hu
    obtain ⟨e, he, rfl⟩ := List.mem_map.mp hu
    obtain ⟨f, hf, site, hsite, hident, hdecl, htext, rfl⟩ :=
      Index.mem_uses.mp (List.mem_filter.mp he).1
    have hfile : f.path = spot.file := hfile
    have hstart : site.node.start = spot.offset := Int.ofNat.inj hoffset
    -- the file is one of those checked, as something is declared there
    obtain ⟨f', hf', hpath', -⟩ := id hintro
    obtain rfl := hws.file_eq (Workspace.files_subset hq hf') hf (hpath'.trans hfile.symm)
    obtain ⟨size, hr⟩ := hws.parsed f' hf
    have hplace : spot = ⟨f'.path, site.node.start⟩ := by
      rw [hfile, hstart]
    refine ⟨f', hf', hfile, site, hsite, hident, hstart, htext, ?_⟩
    exact Introduced.isUnmarked (Checks.apart_files hws hq) hf' hr hsite hident hdecl (hplace ▸ hintro)
  · rintro ⟨f, hf, hfile, site, hsite, hident, hstart, htext, hunmarked⟩
    have hdecl := isDeclaration_of_isUnmarked hunmarked
    have hentry : Entry.ofSite f site ∈ (Index.ofFiles (ws.files true)).uses symbol.name :=
      Index.mem_uses.mpr ⟨f, Workspace.files_subset hq hf, site, hsite, hident, hdecl, htext, rfl⟩
    have hpackage : ws.packageOfFile? (Entry.ofSite f site).file = some q :=
      hws.packageOfFile? hq (List.mem_append_left _ hf)
    have hplace : (⟨(Entry.ofSite f site).file, (Entry.ofSite f site).offset.toNat⟩ : Spot) = spot := by
      cases spot
      simp_all
    -- no use is recorded where a name is declared, so nothing speaks against the occurrence
    have hunused : info.uses.lookup spot = none :=
      (Checks.integral_of_ended hws hlater.valid.ended hq hinfo).apart spot hspot
    have hinfo' : t.checks.info? q = some info :=
      (hlater.checks.keeps q hq (hbegun _ hentry q hpackage)).1 ▸ hinfo
    refine ⟨useOf symbol (Entry.ofSite f site), ?_, hfile, congrArg Int.ofNat hstart⟩
    apply (mem_references_iff hws hvalid hentry).mpr
    rw [ht]
    apply (accepts_iff hws hgws hn hpackage hinfo').mpr
    rw [hplace]
    exact .inl hunused

end Session

namespace Load

/-- A package with a variable whose name a type switch gives to its subject. -/
def switched : ByteArray :=
  ("package p\n\nvar x = 1\n\nfunc f(v any) \x7b\n\tswitch x := v.(type) \x7b\n"
    ++ "\tcase int:\n\t\t_ = x\n\t\x7d\n\x7d\n").toUTF8

end Load

namespace Session

/-- A type switch that gives its subject the name of a variable: the declaration in the switch is
taken for a reference to the variable. -/
theorem references_declared_switched : ∃ ws log p symbol,
    Load.workspace (Load.sole Load.switched) "/ws" true = (.ok ws, log) ∧ symbol.name = "x" ∧
    ∃ hp : p ∈ ws.packages,
      let found := references true symbol (askAll { workspace := ws } [.build p hp false])
      (∃ info, found.2.checks.info? p = some info ∧
        (info.defs.lookup ⟨"/ws/main.go", 46⟩).isSome) ∧
      ∃ u ∈ found.1, u.file = "/ws/main.go" ∧ u.offset = 46 := by
  obtain ⟨tree, htree, hplain, himports, ⟨symbol, hsymbol, hname, info, hinfo, hdefs⟩, site, hsite,
      hident, hstart, htext, hunmarked⟩ : ∃ tree ∈ parse? Load.switched,
      tree.packageName Load.switched = "p" ∧ tree.imports Load.switched = [] ∧
      (let p := Load.solePackage Load.switched tree
        let ws := Load.soleWorkspace Load.switched tree
        let asked : List (Question ws) := [.build p (List.mem_singleton_self p) false]
        ∃ symbol ∈ (SymbolTable.ofPackage p false).symbols, symbol.name = "x" ∧
          ∃ info ∈ (references true symbol (askAll { workspace := ws } asked)).2.checks.info? p,
            (info.defs.lookup ⟨"/ws/main.go", 46⟩).isSome = true) ∧
      ∃ site ∈ sitesOf (some tree) none tree.children, site.isIdentifier = true ∧
        site.node.start = 46 ∧ site.node.text Load.switched = "x" ∧ isUnmarked site = true := by
    decide +kernel
  obtain ⟨log, hload⟩ := (Load.single_sole Load.switched).workspace htree hplain himports
  let p := Load.solePackage Load.switched tree
  let file := Load.soleFile "/ws/main.go" Load.switched tree {}
  have hp : p ∈ (Load.soleWorkspace Load.switched tree).packages := List.mem_singleton_self _
  have htable : (askAll { workspace := Load.soleWorkspace Load.switched tree }
      [.build p hp false]).tables.lookup p.path = some (SymbolTable.ofPackage p false) :=
    rfl
  have hfound := references_declared (Load.proper_sole Load.switched) hload _ hp htable hsymbol []
    p hp info hinfo ⟨"/ws/main.go", 46⟩ hdefs
  refine ⟨_, log, p, symbol, hload, hname, hp, ⟨info, hinfo, hdefs⟩, hfound.mpr ?_⟩
  exact ⟨file, List.mem_singleton_self _, rfl, site, hsite, hident, hstart, htext.trans hname.symm,
    hunmarked⟩

end Session

end GoAtlas
