import Mathlib.Data.Prod.Lex
import Mathlib.Data.String.Basic
import GoAtlas.Finding.Unused
import GoAtlas.Proofs.Session.KeptTables
import GoAtlas.Proofs.Symbol.Occurrences

namespace GoAtlas

open Syntax Check Reference

theorem Reference.Index.mem_referenced {i : Index} {name : String} :
    name ∈ i.referenced ↔ i.uses name ≠ [] := by
  rw [referenced, mem_sortedSet, List.mem_map]
  constructor
  · rintro ⟨⟨name, e⟩, he, rfl⟩
    obtain ⟨he, hd⟩ := List.mem_filter.mp he
    exact List.ne_nil_of_mem (List.mem_filter.mpr ⟨mem_occurrences.mpr he, hd⟩)
  · intro h
    obtain ⟨e, he⟩ := List.exists_mem_of_ne_nil _ h
    obtain ⟨he, hd⟩ := List.mem_filter.mp he
    exact ⟨(name, e), List.mem_filter.mpr ⟨mem_occurrences.mp he, hd⟩, rfl⟩

namespace Session

variable {ws : Workspace} {s : Session}

theorem filterM_true {α : Type} (l : List α) (s : Session) :
    l.filterM (fun _ => (pure true : StateM Session Bool)) s = (l, s) := by
  suffices haux : ∀ acc, l.filterAuxM (fun _ => (pure true : StateM Session Bool)) acc s =
      (l.reverse ++ acc, s) by
    simp only [List.filterM, bind_apply, haux, pure_apply, List.append_nil, List.reverse_reverse]
  induction l with
  | nil => exact fun acc => rfl
  | cons a l ih =>
    intro acc
    simp only [List.filterAuxM, bind_apply, pure_apply, ih, cond_true]
    simp

theorem references_plain (hs : s.Valid ws) (symbol : Symbol) :
    (references false symbol s).1 =
      ((Index.ofFiles (ws.files true)).uses symbol.name).map (useOf symbol) := by
  have hall : (references false symbol s).1 =
      (((index false s).1.uses symbol.name).filterM (fun _ => (pure true : StateM Session Bool))
        (index false s).2).1.map (useOf symbol) :=
    rfl
  rw [hall, filterM_true, index_eq hs false]

theorem mem_referenced_iff (hs : s.Valid ws) (symbol : Symbol) :
    symbol.name ∈ (Index.ofFiles (ws.files true)).referenced ↔
      (references false symbol s).1 ≠ [] := by
  rw [Index.mem_referenced, references_plain hs, ne_eq, ne_eq, List.map_eq_nil_iff]

end Session

namespace Finding.UnusedSymbol

open Session

variable {ws : Workspace} {s : Session} {p : Package} {flags : TableFlags}

/-- What is reported for a package by the names used, from a table built with tests or without. -/
def report (o : Options) (names : Option (List String)) (p : Package) (tests : Bool) :
    List UnusedSymbol :=
  inTable o (names.getD (namesUsedIn p)) (SymbolTable.ofPackage p tests)

theorem operates_inPackage (hws : ws.Distinct) (hp : p ∈ ws.packages) (o : Options)
    (names : Option (List String)) :
    Operates ws (·.getD o.tests) p (report o names p) (inPackage o names p) :=
  (operates_tableWith hws hp o.tests).map (inTable o (names.getD (namesUsedIn p)))

theorem operates_inFile (hws : ws.Distinct) (hp : p ∈ ws.packages) (o : Options)
    (names : Option (List String)) (f : SourceFile) :
    Operates ws (·.getD o.tests) p
      (fun tests => (report o names p tests).filter (·.symbol.file == f.path))
      (inFile o names p f) :=
  (operates_inPackage hws hp o names).map (·.filter (·.symbol.file == f.path))

def namesUsed (ws : Workspace) (index? : Option Index) : List String :=
  (index?.getD (Index.ofFiles (ws.files true))).referenced

/-- A workspace is reported on package by package, and has all its tables afterwards. -/
theorem inWorkspace_spec (hws : ws.Distinct) (hs : s.Holds ws flags) (o : Options)
    (index? : Option Index) :
    (inWorkspace o index? s).1 = ws.packages.flatMap (fun p =>
        report o (some (namesUsed ws index?)) p ((flags p.path).getD o.tests)) ∧
      (inWorkspace o index? s).2.Holds ws fun path => some ((flags path).getD o.tests) := by
  -- an index made on the way leaves a record in the log and no table
  obtain ⟨s', hs', heq⟩ : ∃ s' : Session, s'.Holds ws flags ∧ ∃ r,
      inWorkspace o index? s =
        let found := ws.packages.mapM (inPackage o (some (namesUsed ws index?))) s'
        (found.1.flatten, found.2.emit r) := by
    cases index? with
    | none =>
      refine ⟨(freshIndex s).2, hs.emit _, ?_⟩
      rw [namesUsed, Option.getD_none, ← hs.workspace]
      exact ⟨_, rfl⟩
    | some i =>
      refine ⟨s, hs, ?_⟩
      rw [← hs.workspace]
      exact ⟨_, rfl⟩
  obtain ⟨r, heq⟩ := heq
  obtain ⟨hanswers, hlast⟩ := mapM_packages (fun x => by cases x <;> rfl)
    (fun p hp => operates_inPackage hws hp o (some (namesUsed ws index?))) hs'
  rw [heq, List.flatMap, ← hanswers]
  exact ⟨rfl, hlast.emit r⟩

def sortKey (s : Symbol) : String ×ₗ Int ×ₗ Int :=
  toLex (s.file, toLex (s.line, s.column))

theorem before_iff {a b : Symbol} : before a b = true ↔ sortKey a ≤ sortKey b := by
  simp only [before, sortKey, Prod.Lex.toLex_le_toLex, Bool.or_eq_true, Bool.and_eq_true,
    decide_eq_true_eq, beq_iff_eq]

section

variable (o : Options) (names : List String) (table : SymbolTable)

theorem map_symbol_inTable : (inTable o names table).map (·.symbol) =
    (table.symbols.filter fun s => !isSkipped o s && !names.contains s.name).mergeSort before := by
  rw [inTable, List.map_map]
  exact List.map_id _

theorem pairwise_inTable :
    ((inTable o names table).map (·.symbol)).Pairwise fun a b => sortKey a ≤ sortKey b := by
  rw [map_symbol_inTable]
  apply (List.pairwise_mergeSort ?_ ?_ _).imp before_iff.mp
  · intro a b c hab hbc
    exact before_iff.mpr ((before_iff.mp hab).trans (before_iff.mp hbc))
  · intro a b
    rw [Bool.or_eq_true, before_iff, before_iff]
    exact le_total _ _

theorem nodup_inTable (h : table.symbols.Nodup) :
    ((inTable o names table).map (·.symbol)).Nodup := by
  rw [map_symbol_inTable]
  exact (List.mergeSort_perm _ _).nodup_iff.mpr (h.filter _)

theorem mem_inTable {symbol : Symbol} : symbol ∈ (inTable o names table).map (·.symbol) ↔
    symbol ∈ table.symbols ∧ isEntryPoint symbol = false ∧
      (symbol.exported = false ∨ o.exported = true) ∧ symbol.name ∉ names := by
  rw [map_symbol_inTable, List.mem_mergeSort, List.mem_filter]
  simp [isSkipped, and_assoc]

end

theorem spot_ne_of_unreferenced {symbol : Symbol} {tests : Bool} (hws : ws.Loaded)
    (hs : s.Valid ws) (hp : p ∈ ws.packages)
    (hsymbol : symbol ∈ (SymbolTable.ofPackage p tests).symbols)
    (hnone : (references false symbol s).1 = []) :
    ∃ offset, offsetOf? ws symbol = some offset ∧
      ∀ q ∈ ws.packages, ∀ info, s.checks.info? q = some info →
        ∀ e ∈ info.uses, e.2.spot ≠ some ⟨symbol.file, offset⟩ := by
  obtain ⟨f, hf, n, hn⟩ := symbol_written hws hp hsymbol
  have hf : f ∈ ws.files true := Workspace.mem_files hp hf
  refine ⟨n.start, hn.offsetOf? hws hf, ?_⟩
  intro q hq info hinfo e he hspot
  have hfounded := (hs.ended q hq (Checks.begun_of_info hinfo)).founded hws hq hinfo e he
  rw [hn.file] at hspot
  -- the use is spelled with the symbol's name by an identifier the index lists
  obtain ⟨g, hg, -, u, hu, hident, hdecl, -, htext⟩ :=
    hn.used_of_founded hws hf (Workspace.files_subset hq) hfounded hspot
  have huse : Entry.ofSite g u ∈ (Index.ofFiles (ws.files true)).uses symbol.name :=
    Index.mem_uses.mpr ⟨g, Workspace.files_subset hq hg, u, hu, hident, hdecl, htext, rfl⟩
  rw [references_plain hs, List.map_eq_nil_iff] at hnone
  rw [hnone] at huse
  cases huse

theorem nodup_reports (hws : ws.Loaded) (o : Options) (names : List String) :
    (ws.packages.flatMap fun p =>
      (report o (some names) p o.tests).map (·.symbol)).Nodup := by
  apply List.nodup_flatMap.mpr
  constructor
  · intro p hp
    apply nodup_inTable
    apply SymbolTable.nodup_ofPackage (hws.nodup_paths hp o.tests)
    exact fun f hf => hws.parsed f (Workspace.mem_files hp hf)
  · -- a symbol lies in a file of its package, and no file is in two packages
    have hdisjoint := (List.nodup_flatMap.mp (List.map_flatMap ▸ hws.paths)).2
    apply hdisjoint.imp_of_mem
    intro p q hp hq hpq symbol hsp hsq
    obtain ⟨f, hf, _, hn⟩ := symbol_written hws hp ((mem_inTable _ _ _).mp hsp).1
    obtain ⟨g, hg, _, hn'⟩ := symbol_written hws hq ((mem_inTable _ _ _).mp hsq).1
    apply hpq (List.mem_map_of_mem hf)
    rw [← hn.file, hn'.file]
    exact List.mem_map_of_mem hg

/-- On a session that has no symbol table yet, the symbols reported are those that are not called
from outside, not exported unless that is asked for, and without a reference by name, each of them
once, by package and place. No type information there is, or comes to be, knows of a use of any. -/
theorem unused_exact {store : Files.Store} {root : String} {respectIgnore : Bool}
    {log : List LogRecord} {ws : Workspace} (hstore : store.Proper)
    (hload : Load.workspace store root respectIgnore = (.ok ws, log)) (o : Options)
    (asked qs : List (Question ws)) (htables : (askAll { workspace := ws } asked).tables = []) :
    ∃ group : Package → List Symbol,
      (inWorkspace o none (askAll { workspace := ws } asked)).1.map (·.symbol) =
        ws.packages.flatMap group ∧
      (ws.packages.flatMap group).Nodup ∧
      ∀ p ∈ ws.packages,
        ((group p).Pairwise fun a b => sortKey a ≤ sortKey b) ∧
        (∀ symbol, symbol ∈ group p ↔
          symbol ∈ (SymbolTable.ofPackage p o.tests).symbols ∧ isEntryPoint symbol = false ∧
            (symbol.exported = false ∨ o.exported = true) ∧
            (references false symbol (askAll { workspace := ws } qs)).1 = []) ∧
        ∀ symbol ∈ group p, ∃ offset, offsetOf? ws symbol = some offset ∧
          ∀ q ∈ ws.packages, ∀ info,
            (askAll { workspace := ws } qs).checks.info? q = some info →
            ∀ e ∈ info.uses, e.2.spot ≠ some ⟨symbol.file, offset⟩ := by
  have hws := Load.loaded hstore hload
  have hbefore := ((valid_fresh ws).askAll hws.distinct asked).valid
  have hvalid := ((valid_fresh ws).askAll hws.distinct qs).valid
  have hholds := holds_of_empty hbefore.workspace htables
  let names := namesUsed ws none
  let group (p : Package) : List Symbol := (report o (some names) p o.tests).map (·.symbol)
  have hmem : ∀ p symbol, symbol ∈ group p ↔
      symbol ∈ (SymbolTable.ofPackage p o.tests).symbols ∧ isEntryPoint symbol = false ∧
        (symbol.exported = false ∨ o.exported = true) ∧
        (references false symbol (askAll { workspace := ws } qs)).1 = [] := by
    intro p symbol
    have hused := (mem_referenced_iff hvalid symbol).not_left
    rw [← hused]
    exact mem_inTable o names (SymbolTable.ofPackage p o.tests)
  refine ⟨group, ?_, nodup_reports hws o names, fun p hp => ⟨?_, hmem p, ?_⟩⟩
  · rw [(inWorkspace_spec hws.distinct hholds o none).1, List.map_flatMap]
    rfl
  · exact pairwise_inTable o names (SymbolTable.ofPackage p o.tests)
  · intro symbol hsymbol
    obtain ⟨hsymbol, -, -, hnone⟩ := (hmem p symbol).mp hsymbol
    exact spot_ne_of_unreferenced hws hvalid hp hsymbol hnone

theorem unused_in_tested : ∃ main ∈ parse? Load.testedMain, ∃ test ∈ parse? Load.testedTest,
    (Index.ofFiles ((Load.testedWorkspace main test).files true)).uses "h" = [] ∧
    ∃ symbol ∈ (SymbolTable.ofPackage (Load.testedPackage main test) true).symbols,
      symbol.name = "h" ∧ isEntryPoint symbol = false ∧ symbol.exported = false := by
  decide +kernel

/-- A function of a test file that nothing calls is reported. -/
theorem unused_exact_tested : ∃ ws log p, ∃ hp : p ∈ ws.packages,
    Load.workspace Load.tested "/ws" true = (.ok ws, log) ∧
    ∃ symbol ∈ (inWorkspace { tests := true } none { workspace := ws }).1.map (·.symbol),
      symbol.name = "h" ∧ ∃ offset, offsetOf? ws symbol = some offset ∧
        ∀ info, (askAll { workspace := ws } [.check p hp]).checks.info? p = some info →
          ∀ e ∈ info.uses, e.2.spot ≠ some ⟨symbol.file, offset⟩ := by
  obtain ⟨main, hmain, test, htest, hnone, symbol, hsymbol, hname, hentry, hexported⟩ :=
    unused_in_tested
  obtain ⟨log, hload⟩ := Load.workspace_tested hmain htest
  let p := Load.testedPackage main test
  let ws := Load.testedWorkspace main test
  have hp : p ∈ ws.packages := List.mem_singleton_self _
  obtain ⟨group, hfound, -, hgroups⟩ :=
    unused_exact Load.proper_tested hload { tests := true } [] [.check p hp] rfl
  obtain ⟨-, hmem, huses⟩ := hgroups p hp
  have hreferences : (references false symbol
      (askAll { workspace := ws } [.check p hp])).1 = [] := by
    have hws := Load.loaded Load.proper_tested hload
    have hvalid := ((valid_fresh ws).askAll hws.distinct [.check p hp]).valid
    rw [references_plain hvalid, hname, hnone]
    rfl
  have hreported : symbol ∈ group p :=
    (hmem symbol).mpr ⟨hsymbol, hentry, .inl hexported, hreferences⟩
  obtain ⟨offset, hoffset, hunused⟩ := huses symbol hreported
  have hsymbol : symbol ∈ ws.packages.flatMap group := List.mem_flatMap.mpr ⟨p, hp, hreported⟩
  exact ⟨ws, log, p, hp, hload, symbol, hfound ▸ hsymbol, hname, offset, hoffset, hunused p hp⟩

end Finding.UnusedSymbol

end GoAtlas
