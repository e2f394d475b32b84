import GoAtlas.Proofs.Syntax.Parsed
import Mathlib.Data.List.Pairwise

namespace GoAtlas.Syntax

variable {C : Ground} {k : Kind} {a b : Nat} {t u v : Tree} {ts : List Tree}

/-- What holds of a node once it holds of its children holds of all nodes. -/
theorem Tree.by_children {P : Tree → Prop} (h : ∀ t, (∀ c ∈ t.children, P c) → P t) (t : Tree) :
    P t := by
  apply h
  intro c hc
  exact Tree.by_children h c
termination_by sizeOf t
decreasing_by exact Tree.sizeOf_lt_of_mem_children hc

theorem Tree.self_mem_walk (t : Tree) : t ∈ t.walk := by
  cases t
  exact List.mem_cons_self

theorem Tree.mem_walkAll (ht : t ∈ ts) (hu : u ∈ t.walk) : u ∈ Tree.walkAll ts := by
  induction ts with
  | nil => cases ht
  | cons v ts ih =>
    rcases List.mem_cons.mp ht with rfl | ht
    · exact List.mem_append_left _ hu
    · exact List.mem_append_right _ (ih ht)

theorem Tree.exists_of_mem_walkAll (h : u ∈ Tree.walkAll ts) : ∃ t ∈ ts, u ∈ t.walk := by
  induction ts with
  | nil => cases h
  | cons t ts ih =>
    rcases List.mem_append.mp h with h | h
    · exact ⟨t, List.mem_cons_self, h⟩
    · obtain ⟨v, hv, hu⟩ := ih h
      exact ⟨v, List.mem_cons_of_mem t hv, hu⟩

theorem Tree.child_mem_walk (hu : u ∈ t.children) (hv : v ∈ u.walk) : v ∈ t.walk := by
  cases t
  exact List.mem_cons_of_mem _ (Tree.mem_walkAll hu hv)

theorem Tree.mem_walk_iff : u ∈ t.walk ↔ u = t ∨ ∃ c ∈ t.children, u ∈ c.walk := by
  obtain ⟨k, f, s, cs⟩ := t
  rw [Tree.walk, List.mem_cons]
  apply or_congr_right
  constructor
  · exact Tree.exists_of_mem_walkAll
  · rintro ⟨c, hc, hu⟩
    exact Tree.mem_walkAll hc hu

theorem Tree.walk_eq (t : Tree) : t.walk = t :: t.children.flatMap Tree.walk := by
  have hall : ∀ ts : List Tree, Tree.walkAll ts = ts.flatMap Tree.walk := by
    intro ts
    induction ts with
    | nil => rfl
    | cons u ts ih => rw [Tree.walkAll, ih, List.flatMap_cons]
  obtain ⟨k, f, s, cs⟩ := t
  rw [Tree.walk, hall]
  rfl

theorem Tree.walk_trans (t : Tree) (hu : u ∈ t.walk) (hv : v ∈ u.walk) : v ∈ t.walk := by
  induction t using Tree.by_children with
  | h t ih =>
    rcases Tree.mem_walk_iff.mp hu with rfl | ⟨c, hc, hu⟩
    · exact hv
    · exact Tree.child_mem_walk hc (ih c hc hu)

theorem Tree.sizeOf_le_of_mem_walk (h : u ∈ t.walk) : sizeOf u ≤ sizeOf t := by
  induction t using Tree.by_children with
  | h t ih =>
    rcases Tree.mem_walk_iff.mp h with rfl | ⟨c, hc, hu⟩
    · exact Nat.le_refl _
    · exact (ih c hc hu).trans (Tree.sizeOf_lt_of_mem_children hc).le

theorem Tree.walk_antisymm (h : u ∈ t.walk) (h' : t ∈ u.walk) : u = t := by
  rcases Tree.mem_walk_iff.mp h with rfl | ⟨c, hc, hu⟩
  · rfl
  · have hle := Tree.sizeOf_le_of_mem_walk hu
    have hlt := Tree.sizeOf_lt_of_mem_children hc
    have hle' := Tree.sizeOf_le_of_mem_walk h'
    omega

mutual
theorem Tree.walk_within : (t : Tree) → t.Laid C → ∀ u ∈ t.walk,
    t.start ≤ u.start ∧ u.stop ≤ t.stop ∧ u.Laid C
  | .node k f s cs, h, u, hu => by
    rcases List.mem_cons.mp hu with rfl | hu
    · exact ⟨Nat.le_refl _, Nat.le_refl _, h⟩
    · exact Tree.walkAll_within cs k _ _ h.2.2.2.2 u hu

theorem Tree.walkAll_within : (ts : List Tree) → ∀ k a b, Row C k a b ts → ∀ u ∈ Tree.walkAll ts,
    a ≤ u.start ∧ u.stop ≤ b ∧ u.Laid C
  | [], _, _, _, _, _, hu => by cases hu
  | t :: ts, k, a, b, h, u, hu => by
    rcases List.mem_append.mp hu with hu | hu
    · obtain ⟨hstart, hstop, hlaid⟩ := Tree.walk_within t h.2.1 u hu
      exact ⟨h.1.trans hstart, hstop.trans h.2.2.2.le, hlaid⟩
    · obtain ⟨hstart, hstop, hlaid⟩ := Tree.walkAll_within ts k _ _ h.2.2.2 u hu
      exact ⟨(h.1.trans h.2.1.le).trans hstart, hstop, hlaid⟩
end

/-- What holds of a file holds of the nodes in it. -/
theorem Parsed.laid {size : Nat} (h : Parsed size t C) (hu : u ∈ t.walk) (hk : u.kind ≠ .sourceFile) :
    u.Laid C := by
  obtain ⟨k, f, s, cs⟩ := t
  rcases List.mem_cons.mp hu with rfl | hu
  · exact (hk h.kind).elim
  · exact (Tree.walkAll_within cs .sourceFile 0 size h.row u hu).2.2

mutual
theorem Tree.marks_ordered : (t : Tree) → t.Laid C →
    (t.walk.filter (·.kind.isMark)).Pairwise fun u v => u.stop ≤ v.start
  | .node k f s cs, h => by
    rw [Tree.walk, List.filter_cons]
    split
    · next hm =>
      obtain ⟨rfl, -⟩ := h.2.2.1 hm
      exact List.pairwise_singleton _ _
    · exact Tree.marksAll_ordered cs k _ _ h.2.2.2.2

theorem Tree.marksAll_ordered : (ts : List Tree) → ∀ k a b, Row C k a b ts →
    ((Tree.walkAll ts).filter (·.kind.isMark)).Pairwise fun u v => u.stop ≤ v.start
  | [], _, _, _, _ => .nil
  | t :: ts, k, a, b, h => by
    rw [Tree.walkAll, List.filter_append, List.pairwise_append]
    refine ⟨Tree.marks_ordered t h.2.1, Tree.marksAll_ordered ts k _ _ h.2.2.2, ?_⟩
    intro u hu v hv
    have hu := Tree.walk_within t h.2.1 u (List.mem_filter.mp hu).1
    have hv := Tree.walkAll_within ts k _ _ h.2.2.2 v (List.mem_filter.mp hv).1
    exact hu.2.1.trans hv.1
end

mutual
/-- A node of a walk stands in each one before it, or behind it. -/
theorem Tree.walk_nested : (t : Tree) → t.Laid C →
    t.walk.Pairwise fun u v => v ∈ Tree.walkAll u.children ∨ u.stop ≤ v.start
  | .node k f s cs, h => by
    rw [Tree.walk, List.pairwise_cons]
    exact ⟨fun v hv => .inl hv, Tree.walkAll_nested cs k _ _ h.2.2.2.2⟩

theorem Tree.walkAll_nested : (ts : List Tree) → ∀ k a b, Row C k a b ts →
    (Tree.walkAll ts).Pairwise fun u v => v ∈ Tree.walkAll u.children ∨ u.stop ≤ v.start
  | [], _, _, _, _ => .nil
  | t :: ts, k, a, b, h => by
    rw [Tree.walkAll, List.pairwise_append]
    refine ⟨Tree.walk_nested t h.2.1, Tree.walkAll_nested ts k _ _ h.2.2.2, fun u hu v hv => .inr ?_⟩
    have hstop := (Tree.walk_within t h.2.1 u hu).2.1
    exact hstop.trans (Tree.walkAll_within ts k _ _ h.2.2.2 v hv).1
end

theorem Tree.walkAll_sorted (ts : List Tree) (k : Kind) (a b : Nat) (h : Row C k a b ts) :
    (Tree.walkAll ts).Pairwise fun u v => u.start ≤ v.start := by
  refine (Tree.walkAll_nested ts k a b h).imp_of_mem fun {u v} hu _ hnested => ?_
  have hlaid := (Tree.walkAll_within ts k a b h u hu).2.2
  rcases hnested with hin | hle
  · exact (Tree.walkAll_within u.children u.kind _ _ hlaid.row v hin).1
  · exact hlaid.le.trans hle

theorem walk_of_isMark (h : t.Laid C) (hm : t.kind.isMark) : t.walk = [t] := by
  obtain ⟨k, f, s, cs⟩ := t
  have hcs : cs = [] := (h.mark hm).1
  rw [hcs]
  rfl

/-- A mark is written with something. -/
theorem Tree.Laid.text_ne_empty {source : ByteArray} (h : t.Laid C) (hm : t.kind.isMark)
    (hle : t.stop ≤ source.size) : t.text source ≠ "" := by
  have hlt := (h.mark hm).2.1
  have hsize : 0 < (source.extract t.start t.stop).size := by
    rw [ByteArray.size_extract]
    omega
  exact Text.Utf8.decode_ne_empty hsize

/-- The two parts of a node that has them in order, and no children besides but signs and comments. -/
theorem Tree.Laid.inOrder {f g : Field} (h : t.Laid C) (ho : t.kind.order? = some [f, g]) (hne : f ≠ g) :
    ∃ u v, t.part? f = some u ∧ t.part? g = some v ∧ u.stop ≤ v.start ∧
      ∀ c ∈ t.children, c = u ∨ c = v ∨ c.kind.isFiller := by
  have hfields : (t.children.filter (·.field.isSome)).map (·.field) = [some f, some g] := by
    have hall : (t.children.filterMap (·.field)).map some = [some f, some g] :=
      congrArg (List.map some) (h.signed.ordered _ ho)
    rw [← hall, List.map_filterMap, ← List.filterMap_eq_map, List.filterMap_filter]
    refine List.filterMap_congr fun c _ => ?_
    cases hc : c.field <;> simp [hc]
  obtain ⟨u, us, hparts, hu, hus⟩ := List.map_eq_cons_iff.mp hfields
  obtain ⟨v, vs, rfl, hv, hvs⟩ := List.map_eq_cons_iff.mp hus
  obtain rfl := List.map_eq_nil_iff.mp hvs
  have hfind : ∀ x : Field, t.part? x = [u, v].find? (·.field = some x) := by
    intro x
    rw [← hparts, List.find?_filter, Tree.part?]
    congr
    funext c
    cases hc : c.field <;> simp
  have hpair := h.row.ordered.sublist (hparts ▸ List.filter_sublist)
  refine ⟨u, v, by simp [hfind, hu], by simp [hfind, hu, hv, hne], by simpa using hpair, ?_⟩
  intro c hc
  cases hfield : c.field with
  | some x =>
    have hmem : c ∈ [u, v] := hparts ▸ List.mem_filter.mpr ⟨hc, by simp [hfield]⟩
    simp only [List.mem_cons, List.not_mem_nil, or_false] at hmem
    exact hmem.imp_right .inl
  | none =>
    have hadmits := (h.row.mem hc).2.2.2
    rw [hfield] at hadmits
    rcases Kind.cases_of_admits hadmits with ⟨-, hfiller⟩ | ⟨q, hq, he, -⟩
    · exact .inr (.inr hfiller)
    · exact (Kind.named_of_order? ho hq he).elim

mutual
/-- There is nothing but signs and comments in a comment. -/
theorem Tree.walk_filler : (t : Tree) → t.Laid C → t.kind.isFiller → ∀ u ∈ t.walk, u.kind.isFiller
  | .node k f s cs, h, hk, u, hu => by
    rcases List.mem_cons.mp hu with rfl | hu
    · exact hk
    · have hk : k.isFiller := hk
      have hrow : ∀ c ∈ cs, c.kind.isFiller := by
        intro c hc
        rcases Bool.or_eq_true_iff.mp hk with htoken | hcomment
        · rw [(h.2.2.1 (by simp [Kind.isMark, htoken])).1] at hc
          cases hc
        · obtain rfl : k = .comment := by simpa using hcomment
          have hadmits := (h.2.2.2.2.mem hc).2.2.2
          have hparts : Kind.comment.parts = [] := rfl
          simp only [Kind.admits, hparts, List.any_nil, Bool.or_false, Bool.and_eq_true] at hadmits
          exact hadmits.2
      exact Tree.walkAll_filler cs k _ _ h.2.2.2.2 hrow u hu

theorem Tree.walkAll_filler : (ts : List Tree) → ∀ k a b, Row C k a b ts →
    (∀ t ∈ ts, t.kind.isFiller) → ∀ u ∈ Tree.walkAll ts, u.kind.isFiller
  | [], _, _, _, _, _, _, hu => by cases hu
  | t :: ts, k, a, b, h, hk, u, hu => by
    rcases List.mem_append.mp hu with hu | hu
    · exact Tree.walk_filler t h.2.1 (hk t List.mem_cons_self) u hu
    · exact Tree.walkAll_filler ts k _ _ h.2.2.2 (fun v hv => hk v (List.mem_cons_of_mem t hv)) u hu
end

theorem Kind.not_isHeaded_of_isFiller (h : k.isFiller) : k.isHeaded = false := by
  rcases Bool.or_eq_true_iff.mp h with h | h
  · cases k <;> first | rfl | cases h
  · rw [of_decide_eq_true h]
    rfl

theorem Tree.Laid.head_lt (h : t.Laid C) (hk : t.kind.isHeaded) (hu : u ∈ Tree.walkAll t.children)
    (hku : u.kind.isHeaded) : t.start < u.start := by
  obtain ⟨c, hc, hu⟩ := Tree.exists_of_mem_walkAll hu
  have hlaid := (h.row.mem hc).2.2.1
  rcases h.signed.head hk c hc with hfiller | hlt
  · have hfiller := Tree.walk_filler c hlaid hfiller u hu
    simp [Kind.not_isHeaded_of_isFiller hfiller] at hku
  · exact hlt.trans_le (Tree.walk_within c hlaid u hu).1

mutual
theorem Tree.heads_ordered : (t : Tree) → t.Laid C →
    (t.walk.filter (·.kind.isHeaded)).Pairwise fun u v => u.start < v.start
  | .node k f s cs, h => by
    have hcs := Tree.headsAll_ordered cs k _ _ h.2.2.2.2
    rw [Tree.walk, List.filter_cons]
    split
    · next hk =>
      refine List.pairwise_cons.mpr ⟨fun u hu => ?_, hcs⟩
      obtain ⟨hu, hku⟩ := List.mem_filter.mp hu
      exact Tree.Laid.head_lt h hk hu hku
    · exact hcs

theorem Tree.headsAll_ordered : (ts : List Tree) → ∀ k a b, Row C k a b ts →
    ((Tree.walkAll ts).filter (·.kind.isHeaded)).Pairwise fun u v => u.start < v.start
  | [], _, _, _, _ => .nil
  | t :: ts, k, a, b, h => by
    rw [Tree.walkAll, List.filter_append, List.pairwise_append]
    refine ⟨Tree.heads_ordered t h.2.1, Tree.headsAll_ordered ts k _ _ h.2.2.2, ?_⟩
    intro u hu v hv
    obtain ⟨hu, hku⟩ := List.mem_filter.mp hu
    obtain ⟨-, hstop, hlaid⟩ := Tree.walk_within t h.2.1 u hu
    have hv := Tree.walkAll_within ts k _ _ h.2.2.2 v (List.mem_filter.mp hv).1
    exact ((hlaid.signed.filled hku).trans_le hstop).trans_le hv.1
end

/-- Nodes with keywords that are picked from a walk start in their order. -/
theorem Tree.Laid.heads_lt (h : t.Laid C) {l : List Tree} (hsub : l.Sublist t.walk)
    (hk : ∀ u ∈ l, u.kind.isHeaded) : l.Pairwise fun u v => u.start < v.start := by
  have hheads := hsub.filter (·.kind.isHeaded)
  rw [List.filter_eq_self.mpr hk] at hheads
  exact (Tree.heads_ordered t h).sublist hheads

/-- Marks that start at the same byte are the same. -/
theorem Row.mark_eq (h : Row C k a b ts) (hu : u ∈ Tree.walkAll ts) (hv : v ∈ Tree.walkAll ts)
    (hmu : u.kind.isMark) (hmv : v.kind.isMark) (he : u.start = v.start) : u = v := by
  have hfilled : ∀ w ∈ (Tree.walkAll ts).filter (·.kind.isMark), w.start < w.stop := by
    intro w hw
    obtain ⟨hw, hm⟩ := List.mem_filter.mp hw
    exact ((Tree.walkAll_within ts k a b h w hw).2.2.mark hm).2.1
  have hpairs : ((Tree.walkAll ts).filter (·.kind.isMark)).Pairwise
      fun u v => u.start = v.start → u = v := by
    refine (Tree.marksAll_ordered ts k a b h).imp_of_mem fun {u v} hu _ hle he => ?_
    have := hfilled u hu
    omega
  have : Std.Symm fun u v : Tree => u.start = v.start → u = v :=
    ⟨fun _ _ h he => (h he.symm).symm⟩
  exact hpairs.forall_of_forall (fun _ _ _ => rfl) (List.mem_filter.mpr ⟨hu, hmu⟩)
    (List.mem_filter.mpr ⟨hv, hmv⟩) he

def Tree.Covers (t : Tree) (n : Nat) : Prop :=
  t.start ≤ n ∧ n < t.stop

theorem Tree.Laid.covers (h : t.Laid C) (hu : u ∈ t.walk) {n : Nat} (hn : u.Covers n) :
    t.Covers n := by
  obtain ⟨hstart, hstop, -⟩ := Tree.walk_within t h u hu
  exact ⟨hstart.trans hn.1, Nat.lt_of_lt_of_le hn.2 hstop⟩

/-- A byte lies in one child of a node at most. -/
theorem Row.covers_eq (h : Row C k a b ts) (hu : u ∈ ts) (hv : v ∈ ts) {n : Nat}
    (hun : u.Covers n) (hvn : v.Covers n) : u = v := by
  by_contra hne
  have hapart := h.apart hu hv hne
  have := hun.2
  have := hvn.2
  have := hun.1
  have := hvn.1
  omega

/-- A node that covers a byte of a child is the parent itself or stands in the child. -/
theorem Row.below (h : Row C k a b t.children) (hu : u ∈ t.children) {n : Nat} (hun : u.Covers n)
    (hv : v ∈ t.walk) (hvn : v.Covers n) : v = t ∨ v ∈ u.walk := by
  rcases Tree.mem_walk_iff.mp hv with rfl | ⟨c, hc, hv⟩
  · exact .inl rfl
  · obtain rfl := h.covers_eq hu hc hun ((h.mem hc).2.2.1.covers hv hvn)
    exact .inr hv

end GoAtlas.Syntax
