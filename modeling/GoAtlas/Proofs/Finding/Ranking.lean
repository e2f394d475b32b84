import GoAtlas.Proofs.Finding.Anchors
import GoAtlas.Proofs.Report.Relocation
import GoAtlas.Proofs.Report.Selection

namespace GoAtlas.Finding.ComplexFunction

open Syntax

variable {C : Ground} {f : SourceFile} {t : Tree} {package : String} {least : Int} {ws : Workspace}
  {packages : List Package} {p : Package}

/-- A function with its measures, however few paths it has. -/
def measured? (package : String) (f : SourceFile) (t : Tree) : Option ComplexFunction := do
  let metrics ← Metrics.ofFunction? f.content t
  let symbol ← Symbol.ofFunction? f package t
  pure ⟨symbol, metrics⟩

/-- The functions of packages, file by file, without those of test files. -/
def measuredIn (packages : List Package) : List ComplexFunction :=
  packages.flatMap fun p => ((p.allFiles true).filter (!·.isTest)).flatMap fun f =>
    f.functions.filterMap (measured? p.key f)

/-- Whether a function has at least some number of paths. -/
def Reaches (least : Int) (c : ComplexFunction) : Bool :=
  least ≤ c.metrics.paths

theorem inFile_measured (least : Int) (package : String) (f : SourceFile) :
    inFile least package f = (f.functions.filterMap (measured? package f)).filter (Reaches least) := by
  rw [inFile, List.filter_filterMap]
  apply List.filterMap_congr
  intro t _
  cases hm : Metrics.ofFunction? f.content t with
  | none => simp [measured?, hm]
  | some m =>
    cases hs : Symbol.ofFunction? f package t with
    | none => simp [measured?, hm, hs]
    | some s =>
      by_cases hfew : (m.paths : Int) < least
      · simp [measured?, hm, hs, hfew, Option.filter, Reaches]
      · have hmany : least ≤ m.paths := Int.not_lt.mp hfew
        simp [measured?, hm, hs, hfew, Option.filter, Reaches, hmany]

theorem isSome_measured? (package : String) (h : t.Laid C) (hk : t.kind.isFunction = true) :
    (measured? package f t).isSome = (t.part? .body).isSome := by
  cases hb : t.part? .body with
  | none => simp [measured?, Metrics.ofFunction?, hb]
  | some body =>
    obtain ⟨u, hu, hname⟩ := h.signed.named hk ⟨body, mem_of_part? hb⟩
    have hsome : (t.part? .name).isSome := List.find?_isSome.mpr ⟨u, hu, by simpa using hname⟩
    obtain ⟨name, hpart⟩ := Option.isSome_iff_exists.mp hsome
    simp [measured?, Metrics.ofFunction?, Symbol.ofFunction?, hb, hpart]

theorem ranked_flatMap {α : Type} (l : List α) (g : α → List ComplexFunction) :
    ranked (l.flatMap fun x => ranked (g x)) = ranked (l.flatMap g) := by
  apply eq_of_filter_paths (ranked_pairwise _) (ranked_pairwise _)
  intro n
  rw [filter_paths_ranked, filter_paths_ranked, List.filter_flatMap, List.filter_flatMap]
  apply List.flatMap_congr
  intro x _
  exact filter_paths_ranked (g x) n

theorem files_eq (hws : ws.Loaded) (hp : p ∈ ws.packages) :
    (p.allFiles true).filter (!·.isTest) = p.files := by
  have hothers : p.files.filter (!·.isTest) = p.files := by
    rw [List.filter_eq_self]
    intro f hf
    rw [hws.others p hp f hf]
    rfl
  have htests : p.testFiles.filter (!·.isTest) = [] := by
    rw [List.filter_eq_nil_iff]
    intro f hf
    rw [hws.tests p hp f hf]
    exact Bool.false_ne_true
  rw [Package.allFiles, if_pos rfl, List.filter_append, hothers, htests, List.append_nil]

theorem ranked_packages (hws : ws.Loaded) (hsub : packages ⊆ ws.packages) (least : Int) :
    ranked (packages.flatMap (inPackage least))
      = ranked ((measuredIn packages).filter (Reaches least)) := by
  have hpackage : ∀ p ∈ packages, p.files.flatMap (inFile least p.key) =
      ((((p.allFiles true).filter (!·.isTest)).flatMap fun f =>
        f.functions.filterMap (measured? p.key f))).filter (Reaches least) := by
    intro p hp
    rw [files_eq hws (hsub hp), List.filter_flatMap]
    apply List.flatMap_congr
    intro f _
    exact inFile_measured least p.key f
  rw [measuredIn, List.filter_flatMap, ← List.flatMap_congr hpackage]
  exact ranked_flatMap packages fun p => p.files.flatMap (inFile least p.key)

/-- Every function with a body in a file that is no test file is measured. The complex ones of a workspace
are those that have enough paths, ranked once and stably by their paths. A report on the workspace has the
same list, and one on selected packages that of their functions. -/
theorem inWorkspace_ranked {s : Files.Store} {root : String} {respectIgnore : Bool}
    {log : List LogRecord} (hs : s.Proper)
    (hload : Load.workspace s root respectIgnore = (.ok ws, log)) :
    (∀ p ∈ ws.packages, ∀ f ∈ p.allFiles true, ∀ t ∈ f.functions,
      (measured? p.key f t).isSome = (t.part? .body).isSome) ∧
    (∀ n : Int,
      let complex := (measuredIn ws.packages).filter (Reaches (minimum n))
      inWorkspace (minimum n) ws = ranked complex ∧
      (ranked complex).Pairwise (fun a b => b.metrics.paths ≤ a.metrics.paths) ∧
      ∀ k, (ranked complex).filter (·.metrics.paths = k) = complex.filter (·.metrics.paths = k)) ∧
    ∀ (c : Settings) (out : String),
      (Report.draft c out ws ws.packages).summary.findings.complex
        = inWorkspace (minimum c.leastPaths) ws ∧
      ∀ reference packages, Report.selectPackages ws reference = .ok packages →
        (Report.draft c out ws packages).summary.findings.complex
          = ranked ((measuredIn packages).filter (Reaches (minimum c.leastPaths))) := by
  have hws := Load.loaded hs hload
  refine ⟨?_, ?_, ?_⟩
  · intro p hp f hf t ht
    have hmem : f ∈ ws.files true := List.mem_flatMap.mpr ⟨p, hp, hf⟩
    have hlies := lies_function (hws.registered f hmem).parsed ht
    exact isSome_measured? p.key hlies (List.mem_filter.mp ht).2
  · intro n
    refine ⟨ranked_packages hws (List.Subset.refl _) _, ranked_pairwise _, ?_⟩
    exact filter_paths_ranked _
  · intro c out
    apply And.intro rfl
    intro reference packages hselect
    exact ranked_packages hws (Report.subset_of_selectPackages hselect) _

def uneven : ByteArray :=
  ("package p\n\nfunc f() \x7b\x7d\n\nfunc g(x bool) \x7b\n\tif x \x7b\n\t\x7d\n\x7d\n\n"
    ++ "func h() \x7b\x7d\n").toUTF8

/-- The second function comes first, and the others stay in order. -/
theorem inWorkspace_ranked_uneven :
    ∃ ws log, (Load.sole uneven).Proper ∧
      Load.workspace (Load.sole uneven) "/ws" true = (.ok ws, log) ∧
      (measuredIn ws.packages).map (·.function.name) = ["f", "g", "h"] ∧
      (inWorkspace (minimum 1) ws).Pairwise (fun a b => b.metrics.paths ≤ a.metrics.paths) ∧
      ((inWorkspace (minimum 1) ws).filter (·.metrics.paths = 2)).map (·.function.name) = ["g"] ∧
      ((inWorkspace (minimum 1) ws).filter (·.metrics.paths = 1)).map (·.function.name)
        = ["f", "h"] := by
  obtain ⟨tree, htree, hname, himports, hmeasured, hmany, hfew⟩ : ∃ tree ∈ Syntax.parse? uneven,
      tree.packageName uneven = "p" ∧ tree.imports uneven = [] ∧
      let measured := measuredIn (Load.soleWorkspace uneven tree).packages
      let complex := measured.filter (Reaches (minimum 1))
      measured.map (·.function.name) = ["f", "g", "h"] ∧
        (complex.filter (·.metrics.paths = 2)).map (·.function.name) = ["g"] ∧
        (complex.filter (·.metrics.paths = 1)).map (·.function.name) = ["f", "h"] := by
    decide +kernel
  obtain ⟨log, hload⟩ := (Load.single_sole uneven).workspace htree hname himports
  have hs := Load.proper_sole uneven
  obtain ⟨-, hranked, -⟩ := inWorkspace_ranked hs hload
  obtain ⟨heq, hsorted, hclasses⟩ := hranked 1
  rw [← heq] at hsorted hclasses
  refine ⟨_, log, hs, hload, hmeasured, hsorted, ?_, ?_⟩
  · rw [hclasses]
    exact hmany
  · rw [hclasses]
    exact hfew

end GoAtlas.Finding.ComplexFunction
