import GoAtlas.Proofs.Check.Verdicts
import GoAtlas.Proofs.Session.RoundTrip
import GoAtlas.Proofs.Workspace.Shown
import GoAtlas.Report.Generate

namespace GoAtlas

open Syntax Files

namespace Finding

theorem Initializer.file_of_mem {f : SourceFile} {i : Initializer} (h : i ∈ inFile f) :
    i.location.file = f.path := by
  obtain ⟨⟨name, t, body⟩, -, h⟩ := List.mem_flatMap.mp h
  obtain ⟨node, -, h⟩ := List.mem_filterMap.mp h
  obtain ⟨init, -, rfl⟩ := Option.map_eq_some_iff.mp h
  rfl

theorem Switchable.file_of_mem {least : Nat} {f : SourceFile} {s : Switchable}
    (h : s ∈ inFile least f) : s.location.file = f.path := by
  obtain ⟨⟨name, t, body⟩, -, h⟩ := List.mem_flatMap.mp h
  obtain ⟨⟨subject, group⟩, -, h⟩ := List.mem_filterMap.mp h
  unfold ofGroup? at h
  dsimp only at h
  split at h
  · cases h
  · obtain ⟨first, -, rfl⟩ := Option.map_eq_some_iff.mp h
    rfl

namespace Nesting

theorem file_of_of? {l : Limits} {f : SourceFile} {function : String} {t : Tree} {n : Nesting}
    (h : of? l f function t = some n) : n.location.file = f.path := by
  unfold of? at h
  dsimp only at h
  split at h
  · cases h
    rfl
  · cases h

mutual
theorem file_inTree (l : Limits) (f : SourceFile) (function : String) :
    ∀ t : Tree, ∀ n ∈ inTree l f function t, n.location.file = f.path
  | .node k field s cs => by
    intro n hn
    rw [inTree] at hn
    split at hn
    · next found hfound =>
      rw [List.mem_singleton.mp hn]
      exact file_of_of? hfound
    · exact file_inTrees l f function cs n hn

theorem file_inTrees (l : Limits) (f : SourceFile) (function : String) :
    ∀ ts : List Tree, ∀ n ∈ inTrees l f function ts, n.location.file = f.path
  | [] => by simp [inTrees]
  | t :: ts => by
    intro n hn
    rw [inTrees] at hn
    rcases List.mem_append.mp hn with hn | hn
    · split at hn
      · exact file_inTree l f function t n hn
      · cases hn
    · exact file_inTrees l f function ts n hn
end

theorem file_of_mem {l : Limits} {f : SourceFile} {n : Nesting} (h : n ∈ inFile l f) :
    n.location.file = f.path := by
  obtain ⟨⟨name, t, body⟩, -, h⟩ := List.mem_flatMap.mp h
  exact file_inTree l f name body n h

end Nesting

theorem Wrapping.file_of_mem {setting : Severity} {f : SourceFile} {w : Wrapping}
    (h : w ∈ inFile setting f) : w.location.file = f.path := by
  obtain ⟨⟨name, t, body⟩, -, h⟩ := List.mem_flatMap.mp h
  obtain ⟨node, -, h⟩ := List.mem_flatMap.mp (List.mem_filter.mp h).1
  obtain ⟨fault, -, rfl⟩ := List.mem_map.mp h
  rfl

theorem RootContext.file_of_mem {f : SourceFile} {r : RootContext} (h : r ∈ inFile f) :
    r.location.file = f.path := by
  obtain ⟨⟨name, t, body⟩, -, h⟩ := List.mem_filterMap.mp h
  dsimp only at h
  split at h
  · cases h
  · cases h
    rfl

theorem Flag.file_of_mem {least : Int} {f : SourceFile} {g : Flag} (h : g ∈ inFile least f) :
    g.location.file = f.path := by
  obtain ⟨t, -, h⟩ := List.mem_flatMap.mp h
  obtain ⟨parameter, -, h⟩ := List.mem_filterMap.mp h
  dsimp only at h
  split at h
  · cases h
    rfl
  · cases h

namespace ComplexFunction

theorem file_of_mem {least : Int} {package : String} {f : SourceFile} {c : ComplexFunction}
    (h : c ∈ inFile least package f) : c.function.file = f.path := by
  obtain ⟨t, -, h⟩ := List.mem_filterMap.mp h
  obtain ⟨metrics, -, h⟩ := Option.bind_eq_some_iff.mp h
  split at h
  · cases h
  · obtain ⟨symbol, hsymbol, h⟩ := Option.bind_eq_some_iff.mp h
    cases h
    obtain ⟨name, -, rfl⟩ := Option.map_eq_some_iff.mp hsymbol
    dsimp only
    split <;> rfl

theorem rank_trans (a b c : ComplexFunction) (h : decide (b.metrics.paths ≤ a.metrics.paths) = true)
    (h' : decide (c.metrics.paths ≤ b.metrics.paths) = true) :
    decide (c.metrics.paths ≤ a.metrics.paths) = true := by
  simp only [decide_eq_true_eq] at *
  omega

theorem rank_total (a b : ComplexFunction) : (decide (b.metrics.paths ≤ a.metrics.paths) ||
    decide (a.metrics.paths ≤ b.metrics.paths)) = true := by
  simp only [Bool.or_eq_true, decide_eq_true_eq]
  omega

theorem ranked_pairwise (l : List ComplexFunction) :
    (ranked l).Pairwise fun a b => b.metrics.paths ≤ a.metrics.paths := by
  simpa [ranked] using List.pairwise_mergeSort rank_trans rank_total l

theorem filter_paths_ranked (l : List ComplexFunction) (n : Nat) :
    (ranked l).filter (·.metrics.paths = n) = l.filter (·.metrics.paths = n) := by
  have hperm : ((ranked l).filter (·.metrics.paths = n)).Perm (l.filter (·.metrics.paths = n)) :=
    (List.mergeSort_perm l _).filter _
  have hequal : (l.filter (·.metrics.paths = n)).Pairwise fun a b =>
      decide (b.metrics.paths ≤ a.metrics.paths) = true := by
    apply List.pairwise_of_forall_mem_list
    intro a ha b hb
    have ha : a.metrics.paths = n := by simpa using (List.mem_filter.mp ha).2
    have hb : b.metrics.paths = n := by simpa using (List.mem_filter.mp hb).2
    simp [ha, hb]
  have hsub : (l.filter (·.metrics.paths = n)).Sublist (ranked l) :=
    List.sublist_mergeSort rank_trans rank_total hequal List.filter_sublist
  have hclass := hsub.filter (·.metrics.paths = n)
  simp only [List.filter_filter, Bool.and_self] at hclass
  exact (hclass.eq_of_length hperm.length_eq.symm).symm

theorem mem_of_filter_paths {l l' : List ComplexFunction} {c : ComplexFunction}
    (hsame : ∀ n, l.filter (·.metrics.paths = n) = l'.filter (·.metrics.paths = n)) (hc : c ∈ l) :
    c ∈ l' := by
  have hclass : c ∈ l.filter (·.metrics.paths = c.metrics.paths) := by simpa using hc
  rw [hsame] at hclass
  exact (List.mem_filter.mp hclass).1

/-- A ranked list is known by its functions with each number of paths. -/
theorem eq_of_filter_paths {l l' : List ComplexFunction}
    (h : l.Pairwise fun a b => b.metrics.paths ≤ a.metrics.paths)
    (h' : l'.Pairwise fun a b => b.metrics.paths ≤ a.metrics.paths)
    (hsame : ∀ n, l.filter (·.metrics.paths = n) = l'.filter (·.metrics.paths = n)) : l = l' := by
  induction l generalizing l' with
  | nil =>
    cases l' with
    | nil => rfl
    | cons b l' => cases mem_of_filter_paths (fun n => (hsame n).symm) List.mem_cons_self
  | cons a l ih =>
    cases l' with
    | nil => cases mem_of_filter_paths hsame List.mem_cons_self
    | cons b l' =>
      have hpaths : a.metrics.paths = b.metrics.paths := by
        have hb : b.metrics.paths ≤ a.metrics.paths := by
          have hmem := mem_of_filter_paths (fun n => (hsame n).symm) List.mem_cons_self
          rcases List.mem_cons.mp hmem with rfl | hb
          · exact Nat.le_refl _
          · exact (List.pairwise_cons.mp h).1 b hb
        have ha : a.metrics.paths ≤ b.metrics.paths := by
          rcases List.mem_cons.mp (mem_of_filter_paths hsame List.mem_cons_self) with rfl | ha
          · exact Nat.le_refl _
          · exact (List.pairwise_cons.mp h').1 a ha
        omega
      have hhead := hsame a.metrics.paths
      rw [List.filter_cons_of_pos (by simp), List.filter_cons_of_pos (by simp [hpaths]),
        List.cons.injEq] at hhead
      obtain ⟨rfl, htail⟩ := hhead
      have hrest : ∀ n, l.filter (·.metrics.paths = n) = l'.filter (·.metrics.paths = n) := by
        intro n
        by_cases hn : a.metrics.paths = n
        · rw [← hn]
          exact htail
        · simpa [List.filter_cons, hn] using hsame n
      rw [ih h.of_cons h'.of_cons hrest]

theorem filter_ranked (keep : ComplexFunction → Bool) (l : List ComplexFunction) :
    (ranked l).filter keep = ranked (l.filter keep) := by
  apply eq_of_filter_paths ((ranked_pairwise l).filter keep) (ranked_pairwise _)
  intro n
  rw [List.filter_comm, filter_paths_ranked, filter_paths_ranked, List.filter_comm]

end ComplexFunction

end Finding

namespace Report

open Finding

/-- The file that a record names, or its symbol does. -/
def fileOf? (record : Json) : Option String :=
  match (record.field? "file").or ((record.field? "symbol").bind (·.field? "file")) with
  | some (.str file) => some file
  | _ => none

/-- Whether the file of a record is one of a package. -/
def isFrom (root : String) (p : Package) (record : Json) : Bool :=
  (fileOf? record).any fun file => (p.allFiles true).any fun f => Path.shown "/" f.path root == file

theorem fileOf?_symbolRecord (root : String) (s : Symbol) :
    fileOf? (symbolRecord root s) = some (Path.shown "/" s.file root) :=
  rfl

theorem fileOf?_unused (root : String) (u : UnusedSymbol) (line column : Int) (subject : String) :
    fileOf? (findingRecord root "unused" u.symbol.file line column subject u.toJson) =
      some (Path.shown "/" u.symbol.file root) :=
  rfl

theorem fileOf?_complex (root : String) (c : ComplexFunction) (line column : Int) (subject : String) :
    fileOf? (findingRecord root "complexity" c.function.file line column subject c.toJson) =
      some (Path.shown "/" c.function.file root) :=
  rfl

theorem fileOf?_locatedRecord (root kind : String) (l : Location) (subject : String)
    (more : List (String × Json)) :
    fileOf? (locatedRecord root kind l subject (.obj (l.fields ++ more))) =
      some (Path.shown "/" l.file root) :=
  rfl

variable {ws : Workspace} {ns : List String} {p q : Package}

theorem isFrom_iff (h : ws.Rooted ns) (hws : ws.Loaded) (hp : p ∈ ws.packages)
    (hq : q ∈ ws.packages) {f : SourceFile} (hf : f ∈ q.allFiles true) {record : Json}
    (hrecord : fileOf? record = some (Path.shown "/" f.path ws.root)) :
    isFrom ws.root p record = true ↔ q = p := by
  rw [isFrom, hrecord, Option.any_some, List.any_eq_true]
  constructor
  · rintro ⟨g, hg, hshown⟩
    have hfile : f ∈ ws.files true := List.mem_flatMap.mpr ⟨q, hq, hf⟩
    have hfile' : g ∈ ws.files true := List.mem_flatMap.mpr ⟨p, hp, hg⟩
    have hpath := h.path_of_shown hfile hfile' (by simpa using (eq_of_beq hshown).symm)
    exact hws.package_eq hq hp hf hg hpath
  · rintro rfl
    exact ⟨f, hf, by simp⟩

theorem filter_isFrom (h : ws.Rooted ns) (hws : ws.Loaded) (hp : p ∈ ws.packages) {α : Type}
    {find : Package → List α} {record : α → Json}
    (hfile : ∀ q ∈ ws.packages, ∀ x ∈ find q, ∃ f ∈ q.allFiles true,
      fileOf? (record x) = some (Path.shown "/" f.path ws.root)) :
    (ws.packages.flatMap find).filter (isFrom ws.root p ∘ record) = find p := by
  have hown : (find p).filter (isFrom ws.root p ∘ record) = find p := by
    rw [List.filter_eq_self]
    intro x hx
    obtain ⟨f, hf, hrecord⟩ := hfile p hp x hx
    exact (isFrom_iff h hws hp hp hf hrecord).mpr rfl
  have hother : ∀ q ∈ ws.packages, q ≠ p → (find q).filter (isFrom ws.root p ∘ record) = [] := by
    intro q hq hne
    rw [List.filter_eq_nil_iff]
    intro x hx
    obtain ⟨f, hf, hrecord⟩ := hfile q hq x hx
    exact fun hfrom => hne ((isFrom_iff h hws hp hq hf hrecord).mp hfrom)
  have hnodup : ws.packages.Nodup := .of_map (·.path) hws.directories
  obtain ⟨before, after, hpackages⟩ := List.append_of_mem hp
  rw [hpackages, List.nodup_append, List.nodup_cons] at hnodup
  rw [hpackages] at hother ⊢
  have hbefore : before.flatMap (fun q => (find q).filter (isFrom ws.root p ∘ record)) = [] := by
    rw [List.flatMap_eq_nil_iff]
    intro q hq
    exact hother q (List.mem_append_left _ hq) (hnodup.2.2 q hq p List.mem_cons_self)
  have hafter : after.flatMap (fun q => (find q).filter (isFrom ws.root p ∘ record)) = [] := by
    rw [List.flatMap_eq_nil_iff]
    intro q hq
    exact hother q (by simp [hq]) fun he => hnodup.2.1.1 (he ▸ hq)
  rw [List.filter_flatMap, List.flatMap_append, List.flatMap_cons, hbefore, hafter, hown]
  simp

theorem filter_isFrom_files (h : ws.Rooted ns) (hws : ws.Loaded) (hp : p ∈ ws.packages) {α : Type}
    {find : SourceFile → List α} {kind : String} {place : α → Location} {subject : α → String}
    {more : α → List (String × Json)} (hfile : ∀ {f x}, x ∈ find f → (place x).file = f.path) :
    (p.files.flatMap find).map
        (fun x => locatedRecord ws.root kind (place x) (subject x) (.obj ((place x).fields ++ more x))) =
      (((ws.packages.flatMap (·.files)).flatMap find).map fun x =>
        locatedRecord ws.root kind (place x) (subject x) (.obj ((place x).fields ++ more x))).filter
          (isFrom ws.root p) := by
  rw [List.filter_map, List.flatMap_assoc, filter_isFrom h hws hp]
  intro q _ x hx
  obtain ⟨f, hf, hx⟩ := List.mem_flatMap.mp hx
  exact ⟨f, List.mem_append_left _ hf, by rw [fileOf?_locatedRecord, hfile hx]⟩

/-- The symbols of a package are declared in its files. -/
theorem file_of_table {tests : Bool} {s : Symbol} (hs : s ∈ (SymbolTable.ofPackage q tests).symbols) :
    ∃ f ∈ q.allFiles true, s.file = f.path := by
  obtain ⟨f, hf, n, -, rfl⟩ := Symbol.mem_declared.mp (SymbolTable.declared_of_mem hs)
  exact ⟨f, (Package.allFiles_sublist q tests).subset hf, rfl⟩

namespace Findings

theorem records_package (h : ws.Rooted ns) (hws : ws.Loaded) (hp : p ∈ ws.packages) (c : Settings)
    (referenced : List String) :
    (inPackages c referenced [p]).records ws.root =
      ((inPackages c referenced ws.packages).records ws.root).map fun x =>
        (x.1, x.2.filter (isFrom ws.root p)) := by
  simp only [records, inPackages, List.map_cons, List.map_nil, List.flatMap_map, List.flatMap_cons,
    List.flatMap_nil, List.append_nil, List.cons.injEq, Prod.mk.injEq, true_and, and_true]
  refine ⟨?symbols, ?unused, ?complex, ?initializers, ?switchable, ?nestings, ?wrappings, ?contexts,
    ?flags⟩
  case symbols =>
    rw [List.filter_map, filter_isFrom h hws hp]
    intro q _ s hs
    obtain ⟨f, hf, hfile⟩ := file_of_table (List.mem_mergeSort.mp hs)
    exact ⟨f, hf, by rw [fileOf?_symbolRecord, hfile]⟩
  case unused =>
    rw [List.filter_map, filter_isFrom h hws hp]
    intro q _ u hu
    obtain ⟨s, hs, rfl⟩ := List.mem_map.mp hu
    obtain ⟨f, hf, hfile⟩ := file_of_table (List.mem_filter.mp (List.mem_mergeSort.mp hs)).1
    exact ⟨f, hf, by rw [fileOf?_unused, hfile]⟩
  case complex =>
    rw [List.filter_map, ComplexFunction.filter_ranked, filter_isFrom h hws hp]
    intro q _ x hx
    obtain ⟨f, hf, hx⟩ := List.mem_flatMap.mp (List.mem_mergeSort.mp hx)
    exact ⟨f, List.mem_append_left _ hf, by
      rw [fileOf?_complex, ComplexFunction.file_of_mem hx]⟩
  case initializers => exact filter_isFrom_files h hws hp Initializer.file_of_mem
  case switchable => exact filter_isFrom_files h hws hp Switchable.file_of_mem
  case nestings => exact filter_isFrom_files h hws hp Nesting.file_of_mem
  case wrappings => exact filter_isFrom_files h hws hp Wrapping.file_of_mem
  case contexts => exact filter_isFrom_files h hws hp RootContext.file_of_mem
  case flags => exact filter_isFrom_files h hws hp Flag.file_of_mem

end Findings

variable {s : Store} {root out reference : String} {out? package? : Option String} {c : Settings}
  {log : List LogRecord}

/-- A report as it is written, a record on each line. -/
def jsonLines (report : String × List Json) : String × String :=
  (report.1 ++ ".jsonl", Json.toLines report.2)

/-- All that a run does to a store is to write texts into a directory, if they can be written. -/
def Run.Writes (run : Run) (s : Store) (out : String) (texts : List (String × String)) : Prop :=
  run.result.map (·.2) = (writeAll s out texts).mapError .unwritable

theorem texts_draft (c : Settings) (out : String) (ws : Workspace) (packages : List Package) :
    (draft c out ws packages).texts =
      ((Findings.inPackages c (Reference.Index.ofFiles (ws.files true)).referenced packages).records
        ws.root).map jsonLines ++
        [("dependencies.json", (Dependencies.ofWorkspace ws).toJson.indented 0)] :=
  rfl

theorem generate_writes {packages : List Package} (hprepare : prepare s root out? = .ok (c, out))
    (hload : Load.workspace s root c.respectIgnore = (.ok ws, log))
    (hselect : selectPackages ws package? = .ok packages) :
    (generate s root out? package?).Writes s out (draft c out ws packages).texts := by
  simp only [Run.Writes, generate, hprepare, hload, onLoaded, hselect, onWorkspace]
  cases writeAll s out (draft c out ws packages).texts <;> rfl

/-- A run that is limited to a package writes, record for record and in their order, what a run on all
packages writes about the files of that package, and the same dependencies. -/
theorem generate_package (hs : s.Proper) (hprepare : prepare s root out? = .ok (c, out))
    (hload : Load.workspace s root c.respectIgnore = (.ok ws, log))
    (hpackage : ws.package? (ws.packagePath reference) = some p) :
    ∃ (reports : List (String × List Json)) (dependencies : String),
      reports.map (·.1) = ["symbols", "unused", "complexity", "if_init", "boolean_branching",
        "deep_if_else", "error_wrapping", "missing_context", "env_booleans"] ∧
      (generate s root out? none).Writes s out
        (reports.map jsonLines ++ [("dependencies.json", dependencies)]) ∧
      (generate s root out? (some reference)).Writes s out
        ((reports.map fun x => (x.1, x.2.filter (isFrom ws.root p))).map jsonLines ++
          [("dependencies.json", dependencies)]) := by
  obtain ⟨ns, -, hrooted, hws⟩ := Load.rooted_loaded hs hload
  have hp : p ∈ ws.packages := List.mem_of_find?_eq_some hpackage
  have hselect : selectPackages ws (some reference) = .ok [p] := by
    rw [selectPackages, hpackage]
  have hall : (generate s root out? none).Writes s out (draft c out ws ws.packages).texts :=
    generate_writes hprepare hload rfl
  have hone := generate_writes hprepare hload hselect
  rw [texts_draft] at hall hone
  rw [Findings.records_package hrooted hws hp] at hone
  exact ⟨_, _, rfl, hall, hone⟩

/-- A run on the inner one of two packages. -/
theorem generate_package_chain : ∃ ws p,
    (Load.workspace Load.chain "/ws" false).1 = .ok ws ∧ ws.packages.map (·.path) = ["/ws", p.path] ∧
    ∃ (reports : List (String × List Json)) (dependencies : String),
      (generate Load.chain "/ws" none none).Writes Load.chain "/ws/.goscope"
        (reports.map jsonLines ++ [("dependencies.json", dependencies)]) ∧
      (generate Load.chain "/ws" none (some "b")).Writes Load.chain "/ws/.goscope"
        ((reports.map fun x => (x.1, x.2.filter (isFrom ws.root p))).map jsonLines ++
          [("dependencies.json", dependencies)]) := by
  have hprepare : prepare Load.chain "/ws" none = .ok ({}, "/ws/.goscope") := by decide +kernel
  obtain ⟨ws, hws, hpaths, p, hp, hpath⟩ : ∃ ws ∈ (Load.workspace Load.chain "/ws" false).1.toOption,
      ws.packages.map (·.path) = ["/ws", "/ws/b"] ∧
      ∃ p ∈ ws.package? (ws.packagePath "b"), p.path = "/ws/b" := by
    decide +kernel
  have hload := Load.workspace_of_toOption hws
  obtain ⟨reports, dependencies, -, hall, hone⟩ :=
    generate_package Load.proper_chain hprepare hload hp
  exact ⟨ws, p, by rw [hload], by rw [hpaths, hpath], reports, dependencies, hall, hone⟩

end Report

end GoAtlas
