import GoAtlas.Proofs.Finding.Anchors
import Mathlib.Data.Nat.Basic
import Mathlib.Order.Bounds.Basic

namespace GoAtlas

namespace Syntax.Tree

variable {C : Ground} {t u a : Tree}

def isIf (t : Tree) : Bool :=
  t.kind = .ifStatement

/-- Whether a node is a conditional statement with an `else`. -/
def hasElse (t : Tree) : Bool :=
  t.isIf && (t.part? .alternative).isSome

/-- The statements directly in the first block of a conditional statement. -/
def thenStatements (t : Tree) : List Tree :=
  statements? (t.part? .consequence)

/-- The conditional statement right after `else`. -/
def elseIf? (t : Tree) : Option Tree :=
  (t.part? .alternative).filter isIf

/-- The statements directly in a plain block after `else`. -/
def elseStatements (t : Tree) : List Tree :=
  statements? ((t.part? .alternative).filter (!·.isIf))

/-- The next one with an `else` in the first block. -/
def NestsStraight (t u : Tree) : Prop :=
  u.hasElse ∧ u ∈ t.thenStatements

/-- The next one with an `else` in either block, or right after `else`. -/
def Nests (t u : Tree) : Prop :=
  u.hasElse ∧ (u ∈ t.thenStatements ∨ u ∈ t.elseStatements ∨ t.elseIf? = some u)

theorem else_of_isIf (ha : t.part? .alternative = some a) (hk : a.isIf = true) :
    t.elseIf? = some a ∧ t.elseStatements = [] := by
  rw [elseIf?, elseStatements, ha]
  simp [Option.filter, hk, statements?]

theorem else_of_not_isIf (ha : t.part? .alternative = some a) (hk : a.isIf = false) :
    t.elseIf? = none ∧ t.elseStatements = a.blockStatements := by
  rw [elseIf?, elseStatements, ha]
  simp [Option.filter, hk, statements?]

theorem isIf_of_hasElse (h : t.hasElse = true) : t.isIf = true :=
  (Bool.and_eq_true_iff.mp h).1

theorem NestsStraight.nests (h : t.NestsStraight u) : t.Nests u :=
  ⟨h.1, .inl h.2⟩

theorem mem_walk_of_blockStatements (h : u ∈ t.blockStatements) : ∃ c ∈ t.children, u ∈ c.walk := by
  obtain ⟨c, hc, hu⟩ := List.mem_flatMap.mp h
  apply Exists.intro c
  apply And.intro (List.mem_filter.mp hc).1
  split at hu
  · have hchild := List.mem_filter.mp (List.mem_filter.mp hu).1
    exact child_mem_walk hchild.1 u.self_mem_walk
  · obtain rfl := List.mem_singleton.mp (List.mem_filter.mp hu).1
    exact u.self_mem_walk

theorem below_of_statements? {o : Option Tree} (ho : ∀ b ∈ o, b ∈ t.children)
    (h : u ∈ statements? o) : ∃ c ∈ t.children, u ∈ c.walk := by
  cases o with
  | none => cases h
  | some b =>
    obtain ⟨c, hc, hu⟩ := mem_walk_of_blockStatements h
    exact ⟨b, ho b rfl, child_mem_walk hc hu⟩

theorem below_of_thenStatements (h : u ∈ t.thenStatements) : ∃ c ∈ t.children, u ∈ c.walk :=
  below_of_statements? (fun _ hb => (mem_of_part? hb).1) h

/-- What nests in a node stands below it. -/
theorem Nests.below (h : t.Nests u) : ∃ c ∈ t.children, u ∈ c.walk := by
  rcases h.2 with hthen | helse | hnext
  · exact below_of_thenStatements hthen
  · apply below_of_statements? _ helse
    intro b hb
    exact (mem_of_part? (Option.filter_eq_some_iff.mp hb).1).1
  · obtain ⟨hpart, -⟩ := Option.filter_eq_some_iff.mp hnext
    exact ⟨u, (mem_of_part? hpart).1, u.self_mem_walk⟩

theorem Nests.laid (h : t.Nests u) (ht : t.Laid C) : u.Laid C := by
  obtain ⟨c, hc, hu⟩ := h.below
  exact (walk_within t ht u (child_mem_walk hc hu)).2.2

end Syntax.Tree

namespace Finding

open Syntax Syntax.Tree

namespace Conditional

variable {C : Ground} {t u a : Tree} {c d : Conditional} {l l' : List Conditional}
  {f : Conditional → Nat}

def greatest (f : Conditional → Nat) : List Conditional → Nat
  | [] => 0
  | c :: cs => max (if c.hasElse then f c else 0) (greatest f cs)

theorem deepest_eq (l : List Conditional) : deepest l = greatest depth l := by
  induction l with
  | nil => rfl
  | cons c l ih => rw [deepest, ih, greatest]

theorem straightDeepest_eq (l : List Conditional) :
    straightDeepest l = greatest straightDepth l := by
  induction l with
  | nil => rfl
  | cons c l ih => rw [straightDeepest, ih, greatest]

theorem greatest_append (l l' : List Conditional) :
    greatest f (l ++ l') = max (greatest f l) (greatest f l') := by
  induction l with
  | nil => exact (Nat.zero_max _).symm
  | cons c l ih => rw [List.cons_append, greatest, ih, greatest, max_assoc]

theorem le_greatest (hc : c ∈ l) (he : c.hasElse = true) : f c ≤ greatest f l := by
  induction l with
  | nil => cases hc
  | cons d l ih =>
    rw [greatest]
    rcases List.mem_cons.mp hc with rfl | hc
    · rw [if_pos he]
      exact Nat.le_max_left _ _
    · exact (ih hc).trans (Nat.le_max_right _ _)

theorem greatest_cases (f : Conditional → Nat) (l : List Conditional) :
    greatest f l = 0 ∨ ∃ c ∈ l, c.hasElse = true ∧ greatest f l = f c := by
  induction l with
  | nil => exact .inl rfl
  | cons d l ih =>
    rw [greatest]
    split
    · next he =>
      rcases Nat.le_total (greatest f l) (f d) with hle | hle
      · exact .inr ⟨d, List.mem_cons_self, he, Nat.max_eq_left hle⟩
      · rw [Nat.max_eq_right hle]
        apply ih.imp_right
        rintro ⟨c, hc, hrest⟩
        exact ⟨c, List.mem_cons_of_mem d hc, hrest⟩
    · rw [Nat.zero_max]
      apply ih.imp_right
      rintro ⟨c, hc, hrest⟩
      exact ⟨c, List.mem_cons_of_mem d hc, hrest⟩

def inner : Conditional → List Conditional
  | .bare _ inner | .elseIf _ inner _ | .elseBlock _ inner _ _ _ => inner

def elseInner : Conditional → List Conditional
  | .bare _ _ => []
  | .elseIf _ _ next => [next]
  | .elseBlock _ _ _ _ elseInner => elseInner

def branches (c : Conditional) : List Conditional :=
  c.inner ++ c.elseInner

theorem straightDepth_eq (c : Conditional) :
    c.straightDepth = 1 + greatest straightDepth c.inner := by
  cases c <;> rw [straightDepth, straightDeepest_eq, inner]

theorem depth_eq (c : Conditional) : c.depth = 1 + greatest depth c.branches := by
  rw [branches, greatest_append]
  cases c with
  | bare lines within => rw [depth, deepest_eq, inner, elseInner, greatest, Nat.max_zero]
  | elseIf lines within next =>
    rw [depth, deepest_eq, inner, elseInner, greatest, greatest, Nat.max_zero]
  | elseBlock lines within elseLines returns elseWithin =>
    rw [depth, deepest_eq, deepest_eq, inner, elseInner]

theorem nextIn_eq (ts : List Tree) :
    nextIn ts = (ts.find? (·.field = some .alternative)).map ofTree := by
  induction ts with
  | nil => rfl
  | cons t ts ih =>
    rw [nextIn, List.find?_cons]
    by_cases h : t.field = some .alternative
    · simp [h]
    · simp [h, ih]

theorem inPart_eq (f : Field) (ts : List Tree) :
    inPart f ts = ((ts.find? (·.field = some f)).map (among ·.children)).getD [] := by
  induction ts with
  | nil => rfl
  | cons t ts ih =>
    obtain ⟨k, field, s, cs⟩ := t
    rw [inPart, List.find?_cons]
    by_cases h : field = some f
    · simp [h, Tree.field, Tree.children]
    · simp [h, Tree.field, ih]

/-- A node without an `else`, before another condition, or before a block. -/
theorem ofTree_cases (t : Tree) :
    let lines := ((t.part? .consequence).map lineSpan).getD 0
    let within := inPart .consequence t.children
    (t.part? .alternative = none ∧ ofTree t = .bare lines within) ∨
    (∃ a, t.part? .alternative = some a ∧ a.isIf = true ∧
      ofTree t = .elseIf lines within (ofTree a)) ∨
    ∃ a, t.part? .alternative = some a ∧ a.isIf = false ∧
      ofTree t = .elseBlock lines within (lineSpan a)
        (a.blockStatements.any (·.kind = .returnStatement)) (inPart .alternative t.children) := by
  obtain ⟨k, f, s, cs⟩ := t
  dsimp only
  rw [ofTree, nextIn_eq]
  cases ha : (Syntax.Tree.node k f s cs).part? .alternative with
  | none => exact .inl ⟨rfl, rfl⟩
  | some a =>
    have hnext : cs.find? (·.field = some .alternative) = some a := ha
    apply Or.inr
    cases hk : a.isIf with
    | true =>
      have hk' : a.kind = .ifStatement := of_decide_eq_true hk
      apply Or.inl
      refine ⟨a, rfl, hk, ?_⟩
      simp only [hnext, hk', if_true, Option.map_some]
      rfl
    | false =>
      have hk' : a.kind ≠ .ifStatement := of_decide_eq_false hk
      apply Or.inr
      refine ⟨a, rfl, hk, ?_⟩
      simp only [hk', if_false]
      rfl

theorem hasElse_ofTree (t : Tree) : (ofTree t).hasElse = (t.part? .alternative).isSome := by
  obtain ⟨ha, ht⟩ | ⟨a, ha, -, ht⟩ | ⟨a, ha, -, ht⟩ := ofTree_cases t <;> rw [ha, ht] <;> rfl

theorem hasElse_eq (t : Tree) : t.hasElse = (t.isIf && (ofTree t).hasElse) := by
  rw [hasElse_ofTree]
  rfl

theorem among_cons (t : Tree) (ts : List Tree) :
    among (t :: ts) = (if t.isIf then [ofTree t]
      else if t.kind = .statementList then among t.children else []) ++ among ts := by
  obtain ⟨k, f, s, cs⟩ := t
  simp only [among, isIf, decide_eq_true_eq]
  rfl

theorem among_list {a b : Nat} {ts : List Tree} (h : Row C .statementList a b ts) :
    among ts = (ts.filter isIf).map ofTree := by
  induction ts generalizing a with
  | nil => rfl
  | cons t ts ih =>
    obtain ⟨-, -, hadmits, hrest⟩ := h
    have hlist : t.kind ≠ .statementList := by
      intro hk
      rw [hk] at hadmits
      cases hf : t.field <;> rw [hf] at hadmits <;> cases hadmits
    rw [among_cons, ih hrest, if_neg hlist, List.filter_cons]
    split <;> rfl

theorem filter_statementsAmong (ts : List Tree) :
    (statementsAmong (ts.filter (·.kind.isNamed))).filter isIf =
      ts.flatMap fun t => (if t.kind = .statementList then t.children else [t]).filter isIf := by
  have hkept : ∀ us : List Tree,
      (dropComments (us.filter (·.kind.isNamed))).filter isIf = us.filter isIf := by
    intro us
    rw [dropComments, List.filter_filter, List.filter_filter]
    apply List.filter_congr
    intro t _
    by_cases hk : t.kind = .ifStatement
    · simp [isIf, isComment, hk, Kind.isNamed]
    · simp [isIf, hk]
  induction ts with
  | nil => rfl
  | cons t ts ih =>
    have hone := hkept [t]
    rw [List.flatMap_cons, ← ih, List.filter_cons]
    split
    · next hnamed =>
      rw [List.filter_cons, if_pos hnamed, List.filter_nil] at hone
      rw [statementsAmong, List.flatMap_cons, List.filter_append]
      split
      · exact congrArg (· ++ _) (hkept t.children)
      · rw [hone]
        rfl
    · next hnamed =>
      have hlist : t.kind ≠ .statementList := fun hk => hnamed (hk ▸ rfl)
      rw [List.filter_cons, if_neg hnamed, List.filter_nil] at hone
      rw [if_neg hlist, ← hone]
      rfl

theorem among_eq {ts : List Tree} (h : ∀ t ∈ ts, t.Laid C) :
    among ts = ((statementsAmong (ts.filter (·.kind.isNamed))).filter isIf).map ofTree := by
  rw [filter_statementsAmong]
  induction ts with
  | nil => rfl
  | cons t ts ih =>
    have ht : t.Laid C := h t List.mem_cons_self
    rw [among_cons, ih fun u hu => h u (List.mem_cons_of_mem t hu), List.flatMap_cons,
      List.map_append]
    congr 1
    by_cases hlist : t.kind = .statementList
    · have hrow := ht.row
      rw [hlist] at hrow
      rw [if_pos hlist, if_pos hlist, if_neg (by simp [isIf, hlist]), among_list hrow]
    · rw [if_neg hlist, if_neg hlist, List.filter_cons]
      split <;> rfl

theorem inPart_of_laid (h : t.Laid C) (f : Field) :
    inPart f t.children = ((statements? (t.part? f)).filter isIf).map ofTree := by
  rw [inPart_eq]
  change (Option.map _ (t.part? f)).getD [] = _
  cases hb : t.part? f with
  | none => rfl
  | some b =>
    obtain ⟨hlaid, -⟩ := h.part? hb
    exact among_eq fun c hc => (hlaid.row.mem hc).2.2.1

theorem inner_ofTree (h : t.Laid C) :
    (ofTree t).inner = (t.thenStatements.filter isIf).map ofTree := by
  rw [thenStatements, ← inPart_of_laid h]
  obtain ⟨-, ht⟩ | ⟨a, -, -, ht⟩ | ⟨a, -, -, ht⟩ := ofTree_cases t <;> rw [ht] <;> rfl

theorem elseInner_ofTree (h : t.Laid C) :
    (ofTree t).elseInner = ((t.elseStatements ++ t.elseIf?.toList).filter isIf).map ofTree := by
  obtain ⟨ha, ht⟩ | ⟨a, ha, hk, ht⟩ | ⟨a, ha, hk, ht⟩ := ofTree_cases t
  · rw [ht, elseStatements, elseIf?, ha]
    rfl
  · obtain ⟨hnext, hnone⟩ := else_of_isIf ha hk
    rw [ht, hnext, hnone, elseInner, List.nil_append, Option.toList_some, List.filter_cons, if_pos hk]
    rfl
  · obtain ⟨hnone, hblock⟩ := else_of_not_isIf ha hk
    have hpart := inPart_of_laid h .alternative
    rw [ha] at hpart
    rw [ht, hnone, hblock, elseInner, hpart, Option.toList_none, List.append_nil]
    rfl

theorem mem_map_ofTree {us : List Tree} :
    (c ∈ (us.filter isIf).map ofTree ∧ c.hasElse = true)
      ↔ ∃ u, (u.hasElse = true ∧ u ∈ us) ∧ ofTree u = c := by
  simp only [List.mem_map, List.mem_filter, hasElse_eq, Bool.and_eq_true]
  constructor
  · rintro ⟨⟨u, ⟨hu, hk⟩, rfl⟩, he⟩
    exact ⟨u, ⟨⟨hk, he⟩, hu⟩, rfl⟩
  · rintro ⟨u, ⟨⟨hk, he⟩, hu⟩, rfl⟩
    exact ⟨⟨u, ⟨hu, hk⟩, rfl⟩, he⟩

theorem mem_inner (h : t.Laid C) (c : Conditional) :
    (c ∈ (ofTree t).inner ∧ c.hasElse = true) ↔ ∃ u, t.NestsStraight u ∧ ofTree u = c := by
  rw [inner_ofTree h, mem_map_ofTree]
  rfl

theorem mem_branches (h : t.Laid C) (c : Conditional) :
    (c ∈ (ofTree t).branches ∧ c.hasElse = true) ↔ ∃ u, t.Nests u ∧ ofTree u = c := by
  rw [branches, inner_ofTree h, elseInner_ofTree h, ← List.map_append, ← List.filter_append,
    mem_map_ofTree]
  simp only [List.mem_append, Option.mem_toList]
  rfl

section
variable {α : Type} {R : α → α → Prop} {P : α → Prop} {m : α → Nat}

/-- The numbers of nodes on the ways down from a node. -/
def chainLengths (R : α → α → Prop) (x : α) : Set Nat :=
  {k | ∃ l, List.IsChain R (x :: l) ∧ (x :: l).length = k}

/-- A measure that falls along every step, and by one along some step unless it is one, is the length
of the longest chain. -/
theorem isGreatest_chainLengths (hstep : ∀ x y, P x → R x y → P y ∧ m y < m x)
    (hnext : ∀ x, P x → m x = 1 ∨ ∃ y, R x y ∧ m x = m y + 1) {x : α} (hx : P x) :
    IsGreatest (chainLengths R x) (m x) := by
  have hpos : ∀ y, P y → 1 ≤ m y := by
    intro y hy
    rcases hnext y hy with hone | ⟨z, -, hz⟩ <;> omega
  constructor
  -- a chain of that length, one step after the other along which the measure falls by one
  · induction hn : m x using Nat.strong_induction_on generalizing x with
    | h n ih =>
      subst hn
      rcases hnext x hx with hone | ⟨y, hxy, hy⟩
      · exact ⟨[], .singleton x, hone.symm⟩
      · obtain ⟨l, hl, hlength⟩ := ih (m y) (by omega) (hstep x y hx hxy).1 rfl
        refine ⟨y :: l, .cons_cons hxy hl, ?_⟩
        rw [List.length_cons, hlength, hy]
  -- no chain is longer, as the measure falls along each of its steps
  · rintro k ⟨l, hl, rfl⟩
    induction l generalizing x with
    | nil => exact hpos x hx
    | cons y l ih =>
      obtain ⟨hxy, hl⟩ := List.isChain_cons_cons.mp hl
      obtain ⟨hy, hlt⟩ := hstep x y hx hxy
      have hrest := ih hy hl
      rw [List.length_cons]
      omega

end

section
variable {R : Tree → Tree → Prop} {b : Conditional → List Conditional}
  (hf : ∀ c, f c = 1 + greatest f (b c))
  (hmem : ∀ t, t.Laid C → ∀ c, (c ∈ b (ofTree t) ∧ c.hasElse = true) ↔ ∃ u, R t u ∧ ofTree u = c)
include hf hmem

theorem lt_of_branches (h : t.Laid C) (hu : R t u) : f (ofTree u) < f (ofTree t) := by
  obtain ⟨hc, he⟩ := (hmem t h _).mpr ⟨u, hu, rfl⟩
  rw [hf (ofTree t), Nat.add_comm]
  exact Nat.lt_succ_of_le (le_greatest hc he)

theorem isGreatest_of_branches (hlaid : ∀ t u, R t u → t.Laid C → u.Laid C) (h : t.Laid C) :
    IsGreatest (chainLengths R t) (f (ofTree t)) := by
  apply isGreatest_chainLengths (P := Tree.Laid C) (m := fun t => f (ofTree t)) _ _ h
  · intro t u ht hu
    exact ⟨hlaid t u hu ht, lt_of_branches hf hmem ht hu⟩
  · intro t ht
    rw [hf]
    rcases greatest_cases f (b (ofTree t)) with hzero | ⟨c, hc, he, hd⟩
    · exact .inl (by rw [hzero])
    · obtain ⟨u, hu, rfl⟩ := (hmem t ht c).mp ⟨hc, he⟩
      exact .inr ⟨u, hu, by rw [hd, Nat.add_comm]⟩

end

theorem depth_of_nests (h : t.Laid C) (hu : t.Nests u) : (ofTree u).depth < (ofTree t).depth :=
  lt_of_branches (R := Tree.Nests) depth_eq (fun _ ht => mem_branches ht) h hu

theorem isGreatest_depth (h : t.Laid C) :
    IsGreatest (chainLengths Tree.Nests t) (ofTree t).depth :=
  isGreatest_of_branches depth_eq (fun _ ht => mem_branches ht) (fun _ _ hu ht => hu.laid ht) h

theorem isGreatest_straightDepth (h : t.Laid C) :
    IsGreatest (chainLengths Tree.NestsStraight t) (ofTree t).straightDepth :=
  isGreatest_of_branches straightDepth_eq (fun _ ht => mem_inner ht)
    (fun _ _ hu ht => hu.nests.laid ht) h

theorem chainLengths_mono {α : Type} {R S : α → α → Prop} (h : ∀ x y, R x y → S x y) (x : α) :
    chainLengths R x ⊆ chainLengths S x := by
  rintro k ⟨l, hl, hk⟩
  exact ⟨l, hl.imp h, hk⟩

theorem straightDepth_le_depth (h : t.Laid C) : (ofTree t).straightDepth ≤ (ofTree t).depth :=
  (isGreatest_straightDepth h).mono (isGreatest_depth h)
    (chainLengths_mono (fun _ _ => Tree.NestsStraight.nests) t)

end Conditional

namespace Nesting

open Conditional

variable {l : Limits} {f : SourceFile} {n : Nesting} {t u : Tree} {name : String}

theorem mem_inFile (h : n ∈ inFile l f) :
    ∃ b ∈ bodies f, ∃ t ∈ b.2.2.walk, of? l f b.1 t = some n := by
  obtain ⟨b, hb, hn⟩ := List.mem_flatMap.mp h
  have hfound := (inTree_sublist l f b.1 b.2.2).subset hn
  obtain ⟨t, ht, hn⟩ := List.mem_flatMap.mp hfound
  exact ⟨b, hb, t, (List.mem_filter.mp ht).1, Option.mem_toList.mp hn⟩

theorem figures_of? (h : of? l f name t = some n) :
    t.isIf = true ∧ n.depth = (ofTree t).depth ∧ n.straightDepth = (ofTree t).straightDepth := by
  rw [of?] at h
  split at h
  · next hif =>
    cases h
    simp only [Bool.and_eq_true] at hif
    exact ⟨hif.1.1.1, rfl, rfl⟩
  · cases h

theorem reduction_eq {d : Nat} (h : 1 ≤ d) :
    (((d - 1) * 100 / d : Nat) : Int) = ((d : Int) - 1) * 100 / d := by
  rw [Int.natCast_ediv, Int.natCast_mul, Int.natCast_sub h]
  rfl

theorem reduction_le {d : Nat} (h : 1 ≤ d) : (d - 1) * 100 / d ≤ 99 := by
  apply Nat.le_of_lt_succ
  rw [Nat.div_lt_iff_lt_mul h]
  omega

theorem walk_of_bodies {b : String × Tree × Tree} (hb : b ∈ bodies f) (hu : u ∈ b.2.2.walk) :
    u ∈ f.tree.walk := by
  obtain ⟨ht, hbody, -⟩ := mem_bodies.mp hb
  have hchild := (List.mem_filter.mp (List.mem_filter.mp ht).1).1
  apply child_mem_walk hchild
  exact Tree.walk_trans _ (Tree.part_walk hbody) hu

theorem laid_of_isIf (hf : parse? f.content = some f.tree) (ht : t ∈ f.tree.walk)
    (hk : t.isIf = true) : t.Laid {} := by
  apply (parse?_parsed hf).laid ht
  intro hroot
  rw [Tree.isIf, hroot] at hk
  cases hk

/-- The depth of every conditional statement of a file is the length of the longest chain of ones with
an `else` in its branches, and its straight depth that of the longest chain through first blocks. What is
reported are these figures of a conditional statement, and a percentage below a hundred. -/
theorem depth_longest (hf : parse? f.content = some f.tree) :
    (∀ t ∈ f.tree.walk, t.isIf = true →
      IsGreatest (chainLengths Tree.Nests t) (ofTree t).depth ∧
      IsGreatest (chainLengths Tree.NestsStraight t) (ofTree t).straightDepth) ∧
    ∀ (l : Limits), ∀ n ∈ inFile l f,
      (∃ t ∈ f.tree.walk, t.isIf = true ∧
        n.depth = (ofTree t).depth ∧ n.straightDepth = (ofTree t).straightDepth) ∧
      1 ≤ n.straightDepth ∧ n.straightDepth ≤ n.depth ∧ n.depth ≠ 0 ∧
      ∃ p : Int, n.toJson.field? "complexity_reduction_percent" = some (.int p) ∧
        p = ((n.depth : Int) - 1) * 100 / n.depth ∧ 0 ≤ p ∧ p ≤ 99 := by
  constructor
  · intro t ht hk
    have hlaid := laid_of_isIf hf ht hk
    exact ⟨isGreatest_depth hlaid, isGreatest_straightDepth hlaid⟩
  · intro l n hn
    obtain ⟨b, hb, t, ht, hof⟩ := mem_inFile hn
    obtain ⟨hif, hdepth, hstraight⟩ := figures_of? hof
    have hwalk := walk_of_bodies hb ht
    have hle := straightDepth_le_depth (laid_of_isIf hf hwalk hif)
    have hpos : 1 ≤ (ofTree t).straightDepth := by
      rw [straightDepth_eq]
      exact Nat.le_add_right 1 _
    have hnonzero : 1 ≤ n.depth := by
      rw [hdepth]
      exact hpos.trans hle
    rw [← hdepth, ← hstraight] at hle
    rw [← hstraight] at hpos
    refine ⟨⟨t, hwalk, hif, hdepth, hstraight⟩, hpos, hle, Nat.one_le_iff_ne_zero.mp hnonzero, ?_⟩
    exact ⟨_, rfl, reduction_eq hnonzero, Int.natCast_nonneg _, Int.ofNat_le.mpr (reduction_le hnonzero)⟩

/-- Conditions with an `else` in the first block of another and in the first one after its `else`. -/
def chained : ByteArray :=
  ("package p\nfunc f() \x7b\n\tif a \x7b\n\t\tif b \x7b\n\t\t\x7d else \x7b\n\t\t\x7d\n\t\x7d else if c \x7b\n" ++
    "\t\tif d \x7b\n\t\t\x7d else \x7b\n\t\t\x7d\n\t\x7d else \x7b\n\t\x7d\n\x7d\n").toUTF8

def chainedFile (tree : Tree) : SourceFile :=
  ⟨"p.go", chained, tree, Source.Registry.slotFor {} "p.go" chained⟩

theorem depth_longest_chained :
    ∃ root t n, parse? chained = some root ∧ t ∈ root.walk ∧
      IsGreatest (chainLengths Tree.Nests t) 3 ∧ IsGreatest (chainLengths Tree.NestsStraight t) 2 ∧
      inFile ⟨1, 1⟩ (chainedFile root) = [n] ∧ n.depth = 3 ∧ n.straightDepth ≤ n.depth ∧
      ∃ p ≤ 99, n.toJson.field? "complexity_reduction_percent" = some (.int p) ∧ p = 66 := by
  obtain ⟨root, hroot, ⟨t, hwalk, hif, hdepth, hstraight⟩, hdepths⟩ :
      ∃ root ∈ parse? chained,
        (∃ t ∈ root.walk, isIf t = true ∧ (ofTree t).depth = 3 ∧ (ofTree t).straightDepth = 2) ∧
        (inFile ⟨1, 1⟩ (chainedFile root)).map (·.depth) = [3] := by
    decide +kernel
  obtain ⟨n, hone, hreported⟩ := List.map_eq_singleton_iff.mp hdepths
  obtain ⟨hall, hfigures⟩ := depth_longest (f := chainedFile root) hroot
  obtain ⟨hlongest, hlongestStraight⟩ := hall t hwalk hif
  rw [hdepth] at hlongest
  rw [hstraight] at hlongestStraight
  obtain ⟨-, -, hle, -, p, hp, heq, -, hbound⟩ := hfigures ⟨1, 1⟩ n (by rw [hone]; simp)
  rw [hreported] at heq
  exact ⟨root, t, n, hroot, hwalk, hlongest, hlongestStraight, hone, hreported, hle, p, hbound, hp, heq⟩

end Nesting

end Finding

end GoAtlas
