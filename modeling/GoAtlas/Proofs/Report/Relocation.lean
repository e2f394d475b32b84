import GoAtlas.Proofs.Session.Relocation
import GoAtlas.Report.Generate

namespace GoAtlas

open Source Syntax Finding Files

variable {d : String → Int} {r : Registry} {ws : Workspace} {p : Package}

theorem Dependencies.ofWorkspace_moved (d : String → Int) (r : Registry) (ws : Workspace) :
    ofWorkspace (ws.moved d r) = ofWorkspace ws := by
  have hgraph : (ws.moved d r).importGraph = ws.importGraph := by
    simp only [Workspace.importGraph, Workspace.packageForImport?_moved, Option.map_map]
    simp only [Workspace.moved, List.foldl_map]
    rfl
  have houtside : (ws.moved d r).outsideImports = ws.outsideImports := by
    simp only [Workspace.outsideImports, Workspace.packageForImport?_moved, Option.isNone_map]
    simp only [Workspace.moved, List.foldl_map]
    rfl
  rw [ofWorkspace, hgraph, houtside]
  rfl

theorem Workspace.packagePath_moved (d : String → Int) (r : Registry) (ws : Workspace)
    (reference : String) : (ws.moved d r).packagePath reference = ws.packagePath reference := by
  have hroot : (ws.moved d r).root = ws.root := rfl
  have hnamed : (ws.moved d r).packages.filter (·.name == reference) =
      (ws.packages.filter (·.name == reference)).map (·.moved d) := List.filter_map
  simp only [packagePath, package?_moved, Option.isSome_map, importTable_moved, hnamed, hroot]
  generalize ws.packages.filter (·.name == reference) = named
  cases named with
  | nil => rfl
  | cons p ps => cases ps <;> rfl

namespace Finding

namespace UnusedSymbol

def moved (d : String → Int) (u : UnusedSymbol) : UnusedSymbol :=
  ⟨u.symbol.moved d⟩

theorem mergeSort_moved (d : String → Int) (ss : List Symbol) :
    (ss.map (·.moved d)).mergeSort before = (ss.mergeSort before).map (·.moved d) := by
  symm
  apply List.map_mergeSort
  intro a _ b _
  rfl

theorem inTable_moved (o : Options) (referenced : List String) (table : SymbolTable) :
    inTable o referenced (table.moved d) = (inTable o referenced table).map (·.moved d) := by
  rw [inTable, SymbolTable.symbols_moved, List.filter_map, mergeSort_moved, List.map_map, inTable,
    List.map_map]
  rfl

end UnusedSymbol

namespace ComplexFunction

def moved (d : String → Int) (c : ComplexFunction) : ComplexFunction :=
  { c with function := c.function.moved d }

theorem ranked_moved (d : String → Int) (cs : List ComplexFunction) :
    ranked (cs.map (·.moved d)) = (ranked cs).map (·.moved d) := by
  symm
  apply List.map_mergeSort
  intro a _ b _
  rfl

theorem inFile_moved {f : SourceFile} (hf : f.Movable d) (least : Int) (package : String) :
    inFile least package (f.moved d) = (inFile least package f).map (·.moved d) := by
  have hfunctions : (f.moved d).functions = f.functions := rfl
  have hcontent : (f.moved d).content = f.content := rfl
  simp only [inFile, hfunctions, hcontent, Symbol.ofFunction?_moved hf, List.map_filterMap]
  congr 1
  funext t
  cases Metrics.ofFunction? f.content t with
  | none => rfl
  | some metrics =>
    simp only [Option.bind_eq_bind, Option.bind_some]
    split
    · rfl
    · cases Symbol.ofFunction? f package t <;> rfl

theorem inPackage_moved (hp : ∀ f ∈ p.files, f.Movable d) (least : Int) :
    inPackage least (p.moved d) = (inPackage least p).map (·.moved d) := by
  have hfiles : (p.files.map (·.moved d)).flatMap (inFile least p.key) =
      (p.files.flatMap (inFile least p.key)).map (·.moved d) := by
    rw [List.flatMap_map, List.map_flatMap]
    exact List.flatMap_congr fun f hf => inFile_moved (hp f hf) least p.key
  rw [inPackage, Package.files_moved, Package.key_moved, hfiles, ranked_moved, inPackage]

end ComplexFunction

namespace Nesting

mutual
theorem inTree_moved (l : Limits) (f : SourceFile) (function : String) :
    ∀ t : Tree, inTree l (f.moved d) function t = inTree l f function t
  | .node k field s cs => by
    have hof : of? l (f.moved d) function (.node k field s cs) =
        of? l f function (.node k field s cs) := rfl
    rw [inTree, inTree, hof, inTrees_moved l f function cs]

theorem inTrees_moved (l : Limits) (f : SourceFile) (function : String) :
    ∀ ts : List Tree, inTrees l (f.moved d) function ts = inTrees l f function ts
  | [] => rfl
  | t :: ts => by
    rw [inTrees, inTrees, inTree_moved l f function t, inTrees_moved l f function ts]
end

theorem inFile_moved (l : Limits) (f : SourceFile) : inFile l (f.moved d) = inFile l f := by
  have hbodies : bodies (f.moved d) = bodies f := rfl
  simp only [inFile, hbodies, inTree_moved]

end Nesting

end Finding

namespace Report

theorem payload_moved (cwd root : String) (s : Symbol) :
    payload cwd root (s.moved d).toJson = payload cwd root s.toJson :=
  rfl

theorem symbolRecord_moved (root : String) (s : Symbol) :
    symbolRecord root (s.moved d) = symbolRecord root s := by
  rw [symbolRecord, withField, payload_moved]
  rfl

namespace Findings

/-- What is found, with the symbols moved along with their files. -/
def moved (d : String → Int) (f : Findings) : Findings :=
  { f with
    symbols := f.symbols.map (·.moved d)
    unused := f.unused.map (·.moved d)
    complex := f.complex.map (·.moved d) }

theorem records_moved (d : String → Int) (root : String) (f : Findings) :
    (f.moved d).records root = f.records root := by
  have hsymbols : symbolRecord root ∘ Symbol.moved d = symbolRecord root :=
    funext fun s => symbolRecord_moved root s
  simp only [records, moved, List.map_map, hsymbols]
  rfl

theorem inPackages_moved (h : ws.Moves d r) {ps : List Package} (hps : ps ⊆ ws.packages)
    (c : Settings) (referenced : List String) :
    inPackages c referenced (ps.map (·.moved d)) = (inPackages c referenced ps).moved d := by
  have htables : (ps.map (·.moved d)).map (SymbolTable.ofPackage · c.unused.tests) =
      (ps.map (SymbolTable.ofPackage · c.unused.tests)).map (·.moved d) := by
    rw [List.map_map, List.map_map]
    exact List.map_congr_left fun p hp => h.package (hps hp) c.unused.tests
  have hcomplex : ∀ least, (ps.map (·.moved d)).flatMap (ComplexFunction.inPackage least) =
      (ps.flatMap (ComplexFunction.inPackage least)).map (·.moved d) := by
    intro least
    rw [List.flatMap_map, List.map_flatMap]
    apply List.flatMap_congr
    intro p hp
    apply ComplexFunction.inPackage_moved
    intro f hf
    exact h.movable f (List.mem_flatMap.mpr ⟨p, hps hp, List.mem_append_left _ hf⟩)
  -- the other findings are told from the text and the lines of a file
  have hfound : ∀ {α : Type} {find : SourceFile → List α}, (∀ f, find (f.moved d) = find f) →
      ((ps.map (·.moved d)).flatMap (·.files)).flatMap find =
        (ps.flatMap (·.files)).flatMap find := by
    intro α find hfind
    simp only [List.flatMap_map, List.flatMap_assoc, Package.files_moved, hfind]
  simp only [inPackages, moved, mk.injEq, htables, hcomplex, ComplexFunction.ranked_moved]
  refine ⟨?_, ?_, trivial, hfound fun _ => rfl, hfound fun _ => rfl,
    hfound (Nesting.inFile_moved c.nesting), hfound fun _ => rfl, hfound fun _ => rfl,
    hfound fun _ => rfl⟩
  · simp only [List.flatMap_map, List.map_flatMap, SymbolTable.symbols_moved,
      UnusedSymbol.mergeSort_moved]
  · simp only [List.flatMap_map, List.map_flatMap, UnusedSymbol.inTable_moved]

end Findings

theorem selectPackages_moved (d : String → Int) (r : Registry) (ws : Workspace)
    (package? : Option String) : selectPackages (ws.moved d r) package? =
      (selectPackages ws package?).map (List.map (·.moved d)) := by
  cases package? with
  | none => rfl
  | some reference =>
    simp only [selectPackages, Workspace.packagePath_moved, Workspace.package?_moved]
    cases ws.package? (ws.packagePath reference) <;> rfl

theorem subset_of_selectPackages {package? : Option String} {ps : List Package}
    (h : selectPackages ws package? = .ok ps) : ps ⊆ ws.packages := by
  cases package? with
  | none =>
    cases h
    exact List.Subset.refl _
  | some reference =>
    simp only [selectPackages] at h
    split at h
    · next p hp =>
      cases h
      intro q hq
      rw [List.mem_singleton.mp hq]
      exact List.mem_of_find?_eq_some hp
    · cases h

/-- What a run on the workspace at `root` shows: its log, and the records it reported with the
summary and the store after it. -/
def Run.shown (root : String) (run : Run) :
    List LogRecord × Except Obstacle (List (String × List Json) × Json × Store) :=
  (run.log, run.result.map fun (summary, s) =>
    (summary.findings.records root, summary.toJson, s))

theorem Summary.toJson_moved (packages cycles : Nat) (f : Findings) (reports : List String) :
    (Summary.mk packages (f.moved d) cycles reports).toJson =
      (Summary.mk packages f cycles reports).toJson := by
  simp only [toJson, counts, Findings.moved, List.length_map]

theorem draft_moved (h : ws.Moves d r) {ps : List Package} (hps : ps ⊆ ws.packages)
    (c : Settings) (out : String) :
    draft c out (ws.moved d r) (ps.map (·.moved d)) =
      { draft c out ws ps with
        summary.findings := (draft c out ws ps).summary.findings.moved d } := by
  have hsession : ({ workspace := ws.moved d r } : Session) =
      Session.moved d r { workspace := ws } := rfl
  have hfindings := Findings.inPackages_moved h hps c
  have hdependencies : ∀ session : Session, Session.dependencies (session.moved d r) =
      ((Session.dependencies session).1, (Session.dependencies session).2.moved d r) := by
    intro session
    have hd := Dependencies.ofWorkspace_moved d r session.workspace
    simp only [Session.dependencies, Session.moved, hd]
  have hroot : (ws.moved d r).root = ws.root := rfl
  simp only [draft, hsession, Session.freshIndex_moved, hfindings, hdependencies, hroot, texts,
    Findings.records_moved, List.length_map]
  rfl

theorem onWorkspace_moved (h : ws.Moves d r) {ps : List Package} (hps : ps ⊆ ws.packages)
    (s : Store) (c : Settings) (out : String) :
    (onWorkspace s c out (ws.moved d r) (ps.map (·.moved d))).shown ws.root =
      (onWorkspace s c out ws ps).shown ws.root := by
  simp only [onWorkspace, draft_moved h hps]
  cases writeAll s out (draft c out ws ps).texts with
  | error e => rfl
  | ok after =>
    simp only [Run.shown, Except.map, Findings.records_moved]
    rw [Summary.toJson_moved]

theorem onLoaded_moved (h : ws.Moves d r) (s : Store) (c : Settings) (out : String)
    (package? : Option String) :
    (onLoaded s c out package? (ws.moved d r)).shown ws.root =
      (onLoaded s c out package? ws).shown ws.root := by
  rw [onLoaded, onLoaded, selectPackages_moved]
  cases hps : selectPackages ws package? with
  | error e => rfl
  | ok ps => exact onWorkspace_moved h (subset_of_selectPackages hps) s c out

theorem onLoaded_registered {ws' : Workspace} {files : List (String × ByteArray)}
    (hws : ws.Loaded) (h : ws.RegisteredBy files ws') (s : Store) (c : Settings) (out : String)
    (package? : Option String) :
    (onLoaded s c out package? ws').shown ws.root =
      (onLoaded s c out package? ws).shown ws.root := by
  rw [h.eq_moved hws]
  exact onLoaded_moved (h.moves hws) s c out package?

/-- The order in which the files of a workspace are registered, and what else is registered, shows
neither in the reports on it nor, positions apart, in the answers of a session. -/
theorem registration_unseen {store : Store} {root : String} {respectIgnore : Bool}
    {log : List LogRecord} {ws₁ ws₂ : Workspace} {files₁ files₂ : List (String × ByteArray)}
    (hs : store.Proper) (hload : Load.workspace store root respectIgnore = (.ok ws, log))
    (h₁ : ws.RegisteredBy files₁ ws₁) (h₂ : ws.RegisteredBy files₂ ws₂) :
    (∀ s c out package?, (onLoaded s c out package? ws₁).shown ws.root =
      (onLoaded s c out package? ws₂).shown ws.root) ∧
    ∀ is, (Session.answers is { workspace := ws₁ }).1.map (·.unplaced) =
      (Session.answers is { workspace := ws₂ }).1.map (·.unplaced) := by
  have hws := Load.loaded hs hload
  constructor
  · intro s c out package?
    rw [onLoaded_registered hws h₁, onLoaded_registered hws h₂]
  · intro is
    rw [Session.answers_registered hws h₁, Session.answers_registered hws h₂]

/-- Two packages, registered in the order of the workspace, and backwards behind a file of another
tree. -/
theorem registration_unseen_ring : ∃ ws log ws₁ ws₂,
    Load.workspace Load.ring "/ws" true = (.ok ws, log) ∧
    ws.packages.map (·.path) = ["/ws", "/ws/b"] ∧
    ws.RegisteredBy ws.contents ws₁ ∧
    ws.RegisteredBy (("/else.go", .empty) :: ws.contents.reverse) ws₂ ∧
    ws₁.registry ≠ ws₂.registry ∧
    (∀ s c out package?, (onLoaded s c out package? ws₁).shown ws.root =
      (onLoaded s c out package? ws₂).shown ws.root) ∧
    ∀ is, (Session.answers is { workspace := ws₁ }).1.map (·.unplaced) =
      (Session.answers is { workspace := ws₂ }).1.map (·.unplaced) := by
  obtain ⟨ws, log, hws, -, hpaths⟩ := Load.workspace_ring
  have hloaded := Load.loaded Load.proper_ring hws
  have hbackwards : ws.contents ⊆ ("/else.go", .empty) :: ws.contents.reverse := by
    intro f hf
    exact List.mem_cons_of_mem _ (List.mem_reverse.mpr hf)
  obtain ⟨ws₁, h₁⟩ := hloaded.exists_registeredBy (List.Subset.refl ws.contents)
  obtain ⟨ws₂, h₂⟩ := hloaded.exists_registeredBy hbackwards
  refine ⟨ws, log, ws₁, ws₂, hws, hpaths, h₁, h₂, ?_,
    registration_unseen Load.proper_ring hws h₁ h₂⟩
  intro he
  have hlength := h₁.length_slots
  rw [he, h₂.length_slots, List.length_cons, List.length_reverse] at hlength
  omega

end Report

end GoAtlas
