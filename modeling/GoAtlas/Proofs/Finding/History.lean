import GoAtlas.Proofs.Finding.Unused

namespace GoAtlas.Finding.UnusedSymbol

open Reference Session

variable {ws : Workspace} {s : Session} {p : Package} {flags : TableFlags}

/-- What may be done on a session: tables are built, and unused symbols looked for. -/
inductive Step (ws : Workspace) where
  | build (p : Package) (mem : p ∈ ws.packages) (tests : Bool)
  | buildAll (tests : Bool)
  | inPackage (o : Options) (names : Option (List String)) (p : Package) (mem : p ∈ ws.packages)
  | inFile (o : Options) (names : Option (List String)) (p : Package) (mem : p ∈ ws.packages)
      (f : SourceFile)
  | inWorkspace (o : Options) (index? : Option Index)

namespace Step

def take (s : Session) : Step ws → Session
  | .build p _ tests => (buildTable p tests s).2
  | .buildAll tests => (buildTables tests s).2
  | .inPackage o names p _ => (UnusedSymbol.inPackage o names p s).2
  | .inFile o names p _ f => (UnusedSymbol.inFile o names p f s).2
  | .inWorkspace o index? => (UnusedSymbol.inWorkspace o index? s).2

def note (flags : TableFlags) : Step ws → TableFlags
  | .build p _ tests => noted (fun _ => tests) p.path flags
  | .buildAll tests => fun _ => some tests
  | .inPackage o _ p _ => noted (·.getD o.tests) p.path flags
  | .inFile o _ p _ _ => noted (·.getD o.tests) p.path flags
  | .inWorkspace o _ => fun path => some ((flags path).getD o.tests)

theorem holds_take (hws : ws.Distinct) (hs : s.Holds ws flags) (step : Step ws) :
    (step.take s).Holds ws (step.note flags) := by
  cases step with
  | build p hp tests => exact (operates_buildTable hws hp tests flags s hs).2
  | buildAll tests =>
    have hall := (mapM_packages (fun _ => rfl) (fun p hp => operates_buildTable hws hp tests) hs).2
    rw [take, buildTables, bind_apply, get_apply, hs.workspace]
    exact hall
  | inPackage o names p hp => exact (operates_inPackage hws hp o names flags s hs).2
  | inFile o names p hp f => exact (operates_inFile hws hp o names f flags s hs).2
  | inWorkspace o index? => exact (inWorkspace_spec hws hs o index?).2

end Step

def after (ws : Workspace) (history : List (Step ws)) : Session :=
  history.foldl Step.take { workspace := ws }

def flagsAfter (history : List (Step ws)) : TableFlags :=
  history.foldl Step.note fun _ => none

theorem holds_after (hws : ws.Distinct) (history : List (Step ws)) :
    (after ws history).Holds ws (flagsAfter history) := by
  -- by induction on the history, from any session its flags are right for
  suffices hrun : ∀ s flags, Holds ws flags s →
      (history.foldl Step.take s).Holds ws (history.foldl Step.note flags) from
    hrun _ _ (holds_of_empty rfl rfl)
  induction history with
  | nil => exact fun _ _ hs => hs
  | cons step history ih => exact fun s flags hs => ih _ _ (step.holds_take hws hs)

theorem report_eq {o : Options} (h : flags p.path ≠ some (!o.tests) ∨ p.testFiles = [])
    (names : Option (List String)) :
    report o names p ((flags p.path).getD o.tests) = report o names p o.tests := by
  rcases h with h | h
  · have hsame : (flags p.path).getD o.tests = o.tests := by
      cases hset : flags p.path with
      | none => rfl
      | some tests =>
        have hne : tests ≠ !o.tests := fun he => h (hset.trans (congrArg some he))
        exact Bool.ne_not.mp hne
    rw [hsame]
  · have hfiles : ∀ tests, SymbolTable.ofPackage p tests = SymbolTable.ofPackage p false := by
      intro tests
      cases tests with
      | false => rfl
      | true => simp [SymbolTable.ofPackage, Package.allFiles, h]
    rw [report, report, hfiles, hfiles o.tests]

/-- After any history, a package is reported on as on a new session by what looks for the tests its
table was built with, and a workspace package by package. That is the answer of a new session to the
same question wherever a table has the tests asked for, or the package has none. -/
theorem unused_after {store : Files.Store} {root : String} {respectIgnore : Bool}
    {log : List LogRecord} {ws : Workspace} (hstore : store.Proper)
    (hload : Load.workspace store root respectIgnore = (.ok ws, log)) (history : List (Step ws))
    (o : Options) :
    let fresh : Session := { workspace := ws }
    let flags := flagsAfter history
    (∀ p ∈ ws.packages, ∀ names,
      (inPackage o names p (after ws history)).1 =
        (inPackage { o with tests := (flags p.path).getD o.tests } names p fresh).1) ∧
    (∀ index?, (inWorkspace o index? (after ws history)).1 = ws.packages.flatMap fun p =>
      (inPackage { o with tests := (flags p.path).getD o.tests }
        (some (namesUsed ws index?)) p fresh).1) ∧
    (∀ p ∈ ws.packages, flags p.path ≠ some (!o.tests) ∨ p.testFiles = [] → ∀ names,
      (inPackage o names p (after ws history)).1 = (inPackage o names p fresh).1) ∧
    ((∀ p ∈ ws.packages, flags p.path ≠ some (!o.tests) ∨ p.testFiles = []) → ∀ index?,
      (inWorkspace o index? (after ws history)).1 = (inWorkspace o index? fresh).1) := by
  intro fresh flags
  have hws := (Load.loaded hstore hload).distinct
  have hholds := holds_after hws history
  have hfresh : fresh.Holds ws (fun _ => none) := holds_of_empty rfl rfl
  have hpackage : ∀ p ∈ ws.packages, ∀ names, (inPackage o names p (after ws history)).1 =
      report o names p ((flags p.path).getD o.tests) :=
    fun p hp names => (operates_inPackage hws hp o names _ _ hholds).1
  have hworkspace := fun index? => (inWorkspace_spec hws hholds o index?).1
  have hnew : ∀ p ∈ ws.packages, ∀ o names, (inPackage o names p fresh).1 =
      report o names p o.tests :=
    fun p hp o names => (operates_inPackage hws hp o names _ _ hfresh).1
  refine ⟨?_, ?_, ?_, ?_⟩
  · intro p hp names
    rw [hpackage p hp, hnew p hp]
    rfl
  · intro index?
    rw [hworkspace]
    apply List.flatMap_congr
    intro p hp
    rw [hnew p hp]
    rfl
  · intro p hp h names
    rw [hpackage p hp, hnew p hp, report_eq h]
  · intro h index?
    rw [hworkspace, (inWorkspace_spec hws hfresh o index?).1]
    apply List.flatMap_congr
    intro p hp
    exact report_eq (h p hp) _

/-- Once tables have been built without tests, a function of a test file that nothing calls is not
reported any more. -/
theorem unused_after_tested : ∃ ws log,
    Load.workspace Load.tested "/ws" true = (.ok ws, log) ∧
    "h" ∉ (inWorkspace { tests := true } none (after ws [.buildAll false])).1.map (·.symbol.name) ∧
    "h" ∈ (inWorkspace { tests := true } none (after ws [])).1.map (·.symbol.name) := by
  obtain ⟨main, hmain, test, htest, hnone, symbol, hsymbol, hname, hentry, hexported⟩ :=
    unused_in_tested
  obtain ⟨log, hload⟩ := Load.workspace_tested hmain htest
  let p := Load.testedPackage main test
  let ws := Load.testedWorkspace main test
  have heval : ∀ t ∈ Syntax.parse? Load.testedMain,
      ∀ s ∈ (SymbolTable.ofPackage (Load.solePackage Load.testedMain t) false).symbols,
        s.name ≠ "h" := by
    decide +kernel
  have hunused : symbol.name ∉ namesUsed ws none := by
    rw [hname, namesUsed, Option.getD_none, Index.mem_referenced, hnone]
    simp
  have hbuilt := (unused_after Load.proper_tested hload [.buildAll false] { tests := true }).2.1 none
  have hnew := (unused_after Load.proper_tested hload [] { tests := true }).2.1 none
  refine ⟨ws, log, hload, ?_, ?_⟩
  · rw [hbuilt]
    intro hmem
    obtain ⟨u, hu, hname⟩ := List.mem_map.mp hmem
    obtain ⟨q, hq, hu⟩ := List.mem_flatMap.mp hu
    obtain rfl := List.mem_singleton.mp hq
    have hreported : u.symbol ∈ (report { tests := true } (some (namesUsed ws none)) p
        false).map (·.symbol) := List.mem_map_of_mem hu
    have hsymbol := ((mem_inTable _ _ _).mp hreported).1
    exact heval main hmain u.symbol hsymbol hname
  · have hreported : symbol ∈ (report { tests := true } (some (namesUsed ws none)) p
        true).map (·.symbol) :=
      (mem_inTable _ _ _).mpr ⟨hsymbol, hentry, .inl hexported, hunused⟩
    obtain ⟨u, hu, he⟩ := List.mem_map.mp hreported
    rw [hnew]
    apply List.mem_map.mpr
    refine ⟨u, List.mem_flatMap.mpr ⟨p, List.mem_singleton_self p, hu⟩, ?_⟩
    rw [he]
    exact hname

end GoAtlas.Finding.UnusedSymbol
