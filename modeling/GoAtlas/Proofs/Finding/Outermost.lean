import GoAtlas.Proofs.Finding.Anchors
import GoAtlas.Proofs.Finding.Branches

namespace GoAtlas

namespace Finding

open Syntax Syntax.Tree

variable {C : Ground} {f : SourceFile} {l : Nesting.Limits} {t u c body : Tree} {name : String}

namespace Conditional

theorem le_elseLinesAll {d : Conditional} {ds : List Conditional} (h : d ∈ ds) :
    d.elseLines ≤ elseLinesAll ds := by
  induction ds with
  | nil => cases h
  | cons e ds ih =>
    rw [elseLinesAll]
    rcases List.mem_cons.mp h with rfl | h
    · exact Nat.le_add_right _ _
    · exact (ih h).trans (Nat.le_add_left _ _)

theorem elseLinesAll_inner {d : Conditional} (h : d.hasElse = true) :
    elseLinesAll d.inner ≤ d.elseLines := by
  cases d with
  | bare lines within => cases h
  | elseIf lines within next => exact Nat.le_add_left _ _
  | elseBlock lines within elseLines returns elseWithin => exact Nat.le_add_left _ _

end Conditional

open Conditional

namespace Nesting

/-- Whether a conditional statement has an `else` and is nested deeper than allowed, over enough
lines. -/
def Limits.Exceeded (l : Limits) (t : Tree) : Prop :=
  t.hasElse = true ∧ l.depth < (ofTree t).depth ∧ l.lines ≤ (ofTree t).elseLines

/-- Whether that holds of a node and of none in the body that it stands in. -/
def Limits.Outermost (l : Limits) (body t : Tree) : Prop :=
  l.Exceeded t ∧ ∀ a ∈ body.walk, t ∈ a.walk → l.Exceeded a → a = t

/-- What is said of a conditional statement that is reported. -/
def ofNode (f : SourceFile) (name : String) (t : Tree) : Nesting :=
  let c := ofTree t
  ⟨Location.of f name t.start, c.depth, c.straightDepth, c.returningElses⟩

instance (l : Limits) (t : Tree) : Decidable (l.Exceeded t) :=
  inferInstanceAs (Decidable (_ ∧ _))

theorem of?_eq (l : Limits) (f : SourceFile) (name : String) (t : Tree) :
    of? l f name t = if l.Exceeded t then some (ofNode f name t) else none := by
  have hcondition : (t.kind = .ifStatement && (ofTree t).hasElse && l.depth < (ofTree t).depth
      && l.lines ≤ (ofTree t).elseLines) = decide (l.Exceeded t) := by
    rw [Bool.eq_iff_iff]
    simp only [Limits.Exceeded, hasElse_eq, Tree.isIf, Bool.and_eq_true, decide_eq_true_eq, and_assoc]
  rw [of?, hcondition]
  simp only [decide_eq_true_eq]
  rfl

theorem inTrees_eq (l : Limits) (f : SourceFile) (name : String) (ts : List Tree) :
    inTrees l f name ts = ts.flatMap fun t => if t.kind.isNamed then inTree l f name t else [] := by
  induction ts with
  | nil => rfl
  | cons t ts ih => rw [inTrees, ih, List.flatMap_cons]

theorem inTree_eq (l : Limits) (f : SourceFile) (name : String) (t : Tree) :
    inTree l f name t = if l.Exceeded t then [ofNode f name t]
      else t.children.flatMap fun c => if c.kind.isNamed then inTree l f name c else [] := by
  obtain ⟨k, field, s, cs⟩ := t
  rw [inTree, of?_eq, inTrees_eq]
  by_cases hover : l.Exceeded (.node k field s cs)
  · rw [if_pos hover, if_pos hover]
  · rw [if_neg hover, if_neg hover]
    rfl

theorem Limits.Exceeded.isIf (h : l.Exceeded t) : t.isIf = true :=
  isIf_of_hasElse h.1

theorem covers_start (h : t.Laid C) (hk : t.isIf = true) : t.Covers t.start := by
  rw [Tree.isIf, decide_eq_true_eq] at hk
  exact ⟨Nat.le_refl _, h.signed.filled (hk ▸ rfl)⟩

theorem Limits.outermost_self (h : l.Exceeded t) : l.Outermost t t :=
  ⟨h, fun _ ha ht _ => Tree.walk_antisymm ha ht⟩

theorem Limits.not_outermost (h : l.Exceeded t) (hc : c ∈ t.children) (hu : u ∈ c.walk) :
    ¬ l.Outermost t u := by
  rintro ⟨-, hnone⟩
  have heq := hnone t t.self_mem_walk (child_mem_walk hc hu) h
  have hle := sizeOf_le_of_mem_walk hu
  have hlt := sizeOf_lt_of_mem_children hc
  rw [heq] at hlt
  omega

theorem Limits.outermost_iff (ht : t.Laid C) (h : ¬ l.Exceeded t) (hc : c ∈ t.children)
    (hu : u ∈ c.walk) : l.Outermost t u ↔ l.Outermost c u := by
  apply and_congr_right
  intro hexceeded
  constructor
  · intro hnone a ha
    exact hnone a (child_mem_walk hc ha)
  · intro hnone a ha hua hover
    have hcover := covers_start (walk_within t ht u (child_mem_walk hc hu)).2.2 hexceeded.isIf
    have hlaid := (ht.row.mem hc).2.2.1
    have ha' := (walk_within t ht a ha).2.2
    rcases ht.row.below hc (hlaid.covers hu hcover) ha (ha'.covers hua hcover) with rfl | ha
    · exact (h hover).elim
    · exact hnone a ha hua hover

theorem inTree_of_sign (h : t.Laid C) (hk : t.kind.isNamed = false) : inTree l f name t = [] := by
  obtain ⟨s, hs⟩ : ∃ s, t.kind = .token s := by
    cases hkind : t.kind <;> rw [hkind] at hk <;> first | exact ⟨_, rfl⟩ | cases hk
  have hover : ¬ l.Exceeded t := by
    intro hover
    have hif := hover.isIf
    rw [Tree.isIf, hs] at hif
    cases hif
  obtain ⟨hleaf, -⟩ := h.mark (by rw [hs]; rfl)
  rw [inTree_eq, if_neg hover, hleaf]
  rfl

open Classical in
theorem inTree_outermost (l : Limits) (f : SourceFile) (name : String) (h : t.Laid C) :
    inTree l f name t = (t.walk.filter (l.Outermost t)).map (ofNode f name) := by
  induction t using by_children with
  | h t ih =>
    rw [inTree_eq, walk_eq]
    by_cases hover : l.Exceeded t
    -- the search ends here, and nothing below is outermost
    · have hbelow : (t.children.flatMap walk).filter (l.Outermost t) = [] := by
        rw [List.filter_eq_nil_iff]
        intro u hu
        obtain ⟨c, hc, hu⟩ := List.mem_flatMap.mp hu
        rw [decide_eq_true_eq]
        exact Limits.not_outermost hover hc hu
      have hself := decide_eq_true (Limits.outermost_self hover)
      rw [if_pos hover, List.filter_cons, if_pos hself, hbelow]
      rfl
    -- the search goes on in the children, where the same nodes are outermost as in the whole
    · have hself : ¬ l.Outermost t t := fun h => hover h.1
      rw [if_neg hover, List.filter_cons, if_neg (by simpa using hself), List.filter_flatMap,
        List.map_flatMap]
      apply List.flatMap_congr
      intro c hc
      have hlaid := (h.row.mem hc).2.2.1
      have hbelow : c.walk.filter (l.Outermost t) = c.walk.filter (l.Outermost c) := by
        apply List.filter_congr
        intro u hu
        exact decide_eq_decide.mpr (Limits.outermost_iff h hover hc hu)
      rw [hbelow, ← ih c hc hlaid]
      split
      · rfl
      · next hnamed => exact (inTree_of_sign hlaid (by simpa using hnamed)).symm

theorem elseLines_of_then (h : t.Laid C) (ht : t.hasElse = true) (hu : u ∈ t.thenStatements)
    (hk : u.isIf = true) : (ofTree u).elseLines ≤ (ofTree t).elseLines := by
  have hmem : ofTree u ∈ (ofTree t).inner := by
    rw [inner_ofTree h]
    exact List.mem_map_of_mem (List.mem_filter.mpr ⟨hu, hk⟩)
  rw [hasElse_eq, Bool.and_eq_true] at ht
  exact (le_elseLinesAll hmem).trans (elseLinesAll_inner ht.2)

theorem elseLines_of_elseIf (hu : t.elseIf? = some u) :
    (ofTree u).elseLines ≤ (ofTree t).elseLines := by
  obtain ⟨ha, hk⟩ := Option.filter_eq_some_iff.mp hu
  obtain ⟨hnone, -⟩ | ⟨a, ha', -, ht⟩ | ⟨a, ha', hk', -⟩ := ofTree_cases t
  · rw [ha] at hnone
    cases hnone
  · rw [ha, Option.some.injEq] at ha'
    rw [ht, elseLines, ha']
    omega
  · rw [ha, Option.some.injEq] at ha'
    rw [ha', hk'] at hk
    cases hk

theorem Limits.Exceeded.of_branch (h : t.Laid C) (ht : t.hasElse = true)
    (hu : u ∈ t.thenStatements ∨ t.elseIf? = some u) (hover : l.Exceeded u) : l.Exceeded t := by
  have hnests : t.Nests u := ⟨hover.1, hu.imp_right .inr⟩
  have hdepth := depth_of_nests h hnests
  have hlines : (ofTree u).elseLines ≤ (ofTree t).elseLines := by
    rcases hu with hthen | hnext
    · exact elseLines_of_then h ht hthen hover.isIf
    · exact elseLines_of_elseIf hnext
  obtain ⟨-, hover, hlong⟩ := hover
  exact ⟨ht, by omega, by omega⟩

theorem Limits.Outermost.not_branch (h : body.Laid C) (ht : l.Outermost body t) (hu : u ∈ body.walk)
    (he : u.hasElse = true) : t ∉ u.thenStatements ∧ u.elseIf? ≠ some t := by
  rw [← not_or]
  intro hbranch
  have hlaid := (walk_within body h u hu).2.2
  have hnests : u.Nests t := ⟨ht.1.1, hbranch.imp_right .inr⟩
  obtain ⟨c, hc, hbelow⟩ := hnests.below
  have heq := ht.2 u hu (child_mem_walk hc hbelow) (ht.1.of_branch hlaid he hbranch)
  have hle := sizeOf_le_of_mem_walk hbelow
  have hlt := sizeOf_lt_of_mem_children hc
  rw [heq] at hlt
  omega

open Classical in
/-- What is reported of a file are, in the order of the walk, the conditional statements with an `else`
in its functions that are nested too deep, over enough lines, in none that is so too. None of them is the
condition after an `else`, nor stands directly in the first block of a condition that has one. -/
theorem inFile_outermost (hf : parse? f.content = some f.tree) (l : Limits) :
    inFile l f = (bodies f).flatMap (fun b =>
      (b.2.2.walk.filter (l.Outermost b.2.2)).map (ofNode f b.1)) ∧
    ∀ b ∈ bodies f, ∀ t ∈ b.2.2.walk, l.Outermost b.2.2 t →
      ∀ u ∈ b.2.2.walk, u.hasElse = true → t ∉ u.thenStatements ∧ u.elseIf? ≠ some t := by
  constructor
  · apply List.flatMap_congr
    intro b hb
    exact inTree_outermost l f b.1 (lies_body hf hb)
  · intro b hb t _ ht u hu he
    exact ht.not_branch (lies_body hf hb) hu he

/-- The second condition is nested as deep as allowed for the first, which alone is reported. -/
theorem inFile_outermost_chained :
    ∃ root, parse? chained = some root ∧ ∃ b ∈ bodies (chainedFile root), ∃ t u,
      t.elseIf? = some u ∧ Limits.Exceeded ⟨1, 1⟩ t ∧ Limits.Exceeded ⟨1, 1⟩ u ∧
      ¬ Limits.Outermost ⟨1, 1⟩ b.2.2 u ∧ (inFile ⟨1, 1⟩ (chainedFile root)).length = 1 ∧
      ∀ n ∈ inFile ⟨1, 1⟩ (chainedFile root), ∃ c ∈ bodies (chainedFile root), ∃ v ∈ c.2.2.walk,
        Limits.Outermost ⟨1, 1⟩ c.2.2 v ∧ n = ofNode (chainedFile root) c.1 v := by
  obtain ⟨root, hroot, hlength, b, hbody, t, hwalk, u, hu, hover, hbranch⟩ :
      ∃ root ∈ parse? chained, (inFile ⟨1, 1⟩ (chainedFile root)).length = 1 ∧
        ∃ b ∈ bodies (chainedFile root), ∃ t ∈ b.2.2.walk, ∃ u ∈ t.elseIf?,
          Limits.Exceeded ⟨1, 1⟩ t ∧ Limits.Exceeded ⟨1, 1⟩ u := by
    decide +kernel
  have hpart := part_walk (Option.filter_eq_some_iff.mp hu).1
  have hbelow := Tree.walk_trans _ hwalk hpart
  obtain ⟨heq, hnone⟩ := inFile_outermost (f := chainedFile root) hroot ⟨1, 1⟩
  refine ⟨root, hroot, b, hbody, t, u, hu, hover, hbranch, ?_, hlength, ?_⟩
  · intro houter
    exact (hnone b hbody u hbelow houter t hwalk hover.1).2 hu
  · intro n hn
    rw [heq] at hn
    obtain ⟨c, hc, hn⟩ := List.mem_flatMap.mp hn
    obtain ⟨v, hv, rfl⟩ := List.mem_map.mp hn
    obtain ⟨hv, houter⟩ := List.mem_filter.mp hv
    exact ⟨c, hc, v, hv, by simpa using houter, rfl⟩

end Nesting

end Finding

end GoAtlas
