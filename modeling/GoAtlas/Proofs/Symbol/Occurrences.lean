import GoAtlas.Proofs.Session.References

namespace GoAtlas

open Syntax Check Reference

variable {ws : Workspace} {p : Package} {f : SourceFile} {fs : List SourceFile} {e : Entry}
  {s : Symbol} {n : Naming} {package : String} {size : Nat}

/-- The occurrences of a symbol's name at its place, the offset being known. -/
def Symbol.occurrencesIn (i : Index) (offset : Int) (s : Symbol) : List Entry :=
  (i.occurrences s.name).filter fun e =>
    e.file = s.file && e.offset = offset && e.line = s.line && e.column = s.column

theorem Symbol.mem_occurrencesIn {i : Index} {offset : Int} :
    e ∈ s.occurrencesIn i offset ↔ (s.name, e) ∈ i ∧
      e.file = s.file ∧ e.offset = offset ∧ e.line = s.line ∧ e.column = s.column := by
  simp only [occurrencesIn, List.mem_filter, Index.mem_occurrences, Bool.and_eq_true,
    decide_eq_true_eq, and_assoc]

theorem Symbol.nodup_occurrencesIn (hpaths : (fs.map (·.path)).Nodup)
    (hr : ∀ f ∈ fs, ∃ size, Parsed size f.tree) (s : Symbol) (offset : Int) :
    (s.occurrencesIn (Index.ofFiles fs) offset).Nodup := by
  have hall : (((Index.ofFiles fs).map (·.2)).map Entry.place).Nodup := by
    rw [List.map_map]
    exact Index.nodup_ofFiles hpaths hr
  have hsub : (s.occurrencesIn (Index.ofFiles fs) offset).Sublist ((Index.ofFiles fs).map (·.2)) :=
    List.filter_sublist.trans (List.filter_sublist.map _)
  exact (List.Nodup.of_map _ hall).sublist hsub

namespace Naming

variable (hpaths : (fs.map (·.path)).Nodup) (hr : ∀ f ∈ fs, ∃ size, Parsed size f.tree)
  (hf : f ∈ fs) (h : n.Stands f.tree)
include hpaths hr hf h

theorem node_of_mem_occurrencesIn
    (he : e ∈ (n.symbol f package).occurrencesIn (Index.ofFiles fs) n.name.start) :
    ∃ s ∈ sitesOf (some f.tree) none f.tree.children, s.isIdentifier ∧ s.node = n.name ∧
      Entry.ofSite f s = e := by
  obtain ⟨hmem, hfile, hoffset, -⟩ := Symbol.mem_occurrencesIn.mp he
  obtain ⟨g, hg, site, hsite, hi, -, rfl⟩ := Index.mem_ofFiles.mp hmem
  obtain rfl : g = f := List.inj_on_of_nodup_map hpaths hg hf hfile
  obtain ⟨size, hr⟩ := hr g hg
  have hnode : site.node = n.name := hr.row.mark_eq (mem_walkAll_of_mem_sitesOf hsite) h.mem
    (Kind.isMark_of_isIdentifier hi) h.mark (Int.ofNat.inj hoffset)
  exact ⟨site, hsite, hi, hnode, rfl⟩

theorem occurrencesIn_of_isIdentifier (hi : n.name.kind.isIdentifier) :
    ∃ e, (n.symbol f package).occurrencesIn (Index.ofFiles fs) n.name.start = [e] ∧
      e.isDeclaration := by
  obtain ⟨site, hsite, hnode, hdeclares⟩ := h.site
  have hident : site.isIdentifier := by
    rw [Site.isIdentifier, hnode]
    exact hi
  refine ⟨Entry.ofSite f site, ?_, hdeclares⟩
  apply List.perm_singleton.mp
  apply (List.perm_ext_iff_of_nodup (Symbol.nodup_occurrencesIn hpaths hr _ _)
    (List.nodup_singleton _)).mpr
  intro e
  rw [List.mem_singleton]
  constructor
  · intro he
    obtain ⟨site', hsite', hident', hnode', rfl⟩ := node_of_mem_occurrencesIn hpaths hr hf h he
    obtain ⟨size, hr⟩ := hr f hf
    rw [Site.eq_of_start hr hsite' hident' hsite hident (by rw [hnode, hnode'])]
  · rintro rfl
    apply Symbol.mem_occurrencesIn.mpr
    have hplace : f.place site.node.start = f.place n.name.start := by rw [hnode]
    refine ⟨Index.mem_ofFiles.mpr ⟨f, hf, site, hsite, hident, ?_, rfl⟩, rfl, ?_,
      congrArg Source.Place.line hplace, congrArg Source.Place.column hplace⟩
    · exact congrArg f.text hnode
    · rw [Entry.offset_ofSite, hnode]

theorem occurrencesIn_of_not_isIdentifier (hi : n.name.kind.isIdentifier = false) :
    (n.symbol f package).occurrencesIn (Index.ofFiles fs) n.name.start = [] := by
  apply List.eq_nil_iff_forall_not_mem.mpr
  intro e he
  obtain ⟨site, -, hident, hnode, -⟩ := node_of_mem_occurrencesIn hpaths hr hf h he
  rw [Site.isIdentifier, hnode, hi] at hident
  cases hident

end Naming

theorem Workspace.Loaded.place?_symbol (hws : ws.Loaded) (hf : f ∈ ws.files true)
    (h : n.Stands f.tree) :
    ws.registry.place? (n.symbol f package).position = some ⟨f.path, n.name.start,
      (n.symbol f package).line, (n.symbol f package).column⟩ := by
  have hoffset : f.position n.name.start - f.slot.base = n.name.start := by
    simp only [SourceFile.position]
    omega
  have hslot : ws.registry.slot? (n.symbol f package).position = some f.slot :=
    hws.slot?_position hf h.mem
  have hposition : (n.symbol f package).position = f.position n.name.start := rfl
  rw [Source.Registry.place?, hslot, Option.map_some, hposition, hoffset, ← (hws.registered f hf).file]
  rfl

/-- Every symbol of a package is written in one of its files, where its position leads to. An
identifier is one occurrence of its name there, which declares; what is no identifier is a comma that
is listed among the names of a constant, and no occurrence. -/
theorem symbol_occurrence {store : Files.Store} {root : String} {respectIgnore : Bool}
    {log : List LogRecord} (hstore : store.Proper)
    (hload : Load.workspace store root respectIgnore = (.ok ws, log)) (hp : p ∈ ws.packages)
    (tests : Bool) (hs : s ∈ (SymbolTable.ofPackage p tests).symbols) :
    ∃ f ∈ p.allFiles tests, ∃ name ∈ Tree.walkAll f.tree.children,
      s.file = f.path ∧ s.name = f.text name ∧
      ws.registry.place? s.position = some ⟨s.file, name.start, s.line, s.column⟩ ∧
      let found := s.occurrencesIn (Index.ofFiles (ws.files true)) name.start
      (name.kind.isIdentifier ∧ (∃ e, found = [e] ∧ e.isDeclaration) ∨
        name.kind = .token "," ∧ s.kind = .constant ∧ found = []) := by
  have hws := Load.loaded hstore hload
  obtain ⟨f, hf, n, hn, rfl⟩ := Symbol.mem_declared.mp (SymbolTable.declared_of_mem hs)
  have hmem : f ∈ ws.files true := Workspace.mem_files hp hf
  have hparsed : ∀ g ∈ ws.files true, ∃ size, Parsed size g.tree := hws.parsed
  obtain ⟨size, hr⟩ := hparsed f hmem
  have h := Naming.stands_ofFile hr hn
  refine ⟨f, hf, n.name, h.mem, rfl, rfl, hws.place?_symbol hmem h, ?_⟩
  rcases h.kind with hi | ⟨hk, hconstant⟩
  · exact .inl ⟨hi, Naming.occurrencesIn_of_isIdentifier hws.paths hparsed hmem h hi⟩
  · refine .inr ⟨hk, hconstant, ?_⟩
    apply Naming.occurrencesIn_of_not_isIdentifier hws.paths hparsed hmem h
    rw [hk]
    rfl

namespace Load

/-- A package with a declaration of two constants, and a function in a test file. -/
def testedMain : ByteArray :=
  ("package p\n\nconst a, b = 1, 2\n\nvar f = b\n\n"
    ++ "func f() int \x7b\n\treturn b\n\x7d\n").toUTF8

def testedTest : ByteArray :=
  "package p\n\nfunc h() \x7b\x7d\n".toUTF8

def tested : Files.Store :=
  paired testedMain testedTest

def testedPackage (main test : Tree) : Package :=
  pairedPackage testedMain testedTest main test

def testedWorkspace (main test : Tree) : Workspace :=
  pairedWorkspace testedMain testedTest main test

theorem proper_tested : tested.Proper :=
  (sound_paired testedMain testedTest).proper

theorem workspace_tested {main test : Tree} (hmain : parse? testedMain = some main)
    (htest : parse? testedTest = some test) :
    ∃ log, workspace tested "/ws" true = (.ok (testedWorkspace main test), log) := by
  obtain ⟨tree, htree, hname, himports⟩ : ∃ tree ∈ parse? testedMain,
      tree.packageName testedMain = "p" ∧ tree.imports testedMain = [] := by
    decide +kernel
  obtain rfl := Option.some.inj (hmain.symm.trans htree)
  exact (paired_paired testedMain testedTest).workspace hmain hname himports htest

end Load

/-- The comma in the declaration of two constants is taken for a symbol. -/
theorem symbol_occurrence_tested : ∃ ws log p s,
    Load.workspace Load.tested "/ws" true = (.ok ws, log) ∧ p ∈ ws.packages ∧
    s ∈ (SymbolTable.ofPackage p true).symbols ∧ s.name = "," ∧
    ∃ f ∈ p.allFiles true, ∃ name ∈ Tree.walkAll f.tree.children, name.kind = .token "," ∧
      ws.registry.place? s.position = some ⟨s.file, name.start, s.line, s.column⟩ ∧
      s.occurrencesIn (Index.ofFiles (ws.files true)) name.start = [] := by
  obtain ⟨main, hmain, test, htest, hnone, s, hs, hname⟩ :
      ∃ main ∈ parse? Load.testedMain, ∃ test ∈ parse? Load.testedTest,
        (Index.ofFiles ((Load.testedWorkspace main test).files true)).occurrences "," = [] ∧
        ∃ s ∈ (SymbolTable.ofPackage (Load.testedPackage main test) true).symbols, s.name = "," := by
    decide +kernel
  obtain ⟨log, hload⟩ := Load.workspace_tested hmain htest
  have hp : Load.testedPackage main test ∈ (Load.testedWorkspace main test).packages :=
    List.mem_singleton_self _
  obtain ⟨f, hf, name, hmem, -, -, hplace, hfound⟩ :=
    symbol_occurrence Load.proper_tested hload hp true hs
  refine ⟨_, log, _, s, hload, hp, hs, hname, f, hf, name, hmem, ?_⟩
  rcases hfound with ⟨-, e, he, -⟩ | ⟨hk, -, hfound⟩
  · have hmem : e ∈ s.occurrencesIn _ name.start := he ▸ List.mem_singleton_self e
    rw [Symbol.occurrencesIn, hname, hnone] at hmem
    cases hmem
  · exact ⟨hk, hplace, hfound⟩

end GoAtlas
