import GoAtlas.Reference.Index
import Mathlib.Data.List.Lex
import Mathlib.Logic.Relation

namespace GoAtlas.Reference

open Syntax Relation

variable {p gp : Option Tree} {s : Site} {t : Tree} {ts : List Tree} {way : List Nat} {i : Nat}

mutual
def sites (parent grandparent : Option Tree) : Tree → List Site
  | .node k f s cs =>
    ⟨.node k f s cs, parent, grandparent⟩ :: sitesOf (some (.node k f s cs)) parent cs

def sitesOf (parent grandparent : Option Tree) : List Tree → List Site
  | [] => []
  | t :: ts => sites parent grandparent t ++ sitesOf parent grandparent ts
end

theorem sites_eq_cons (t : Tree) (p gp : Option Tree) :
    sites p gp t = ⟨t, p, gp⟩ :: sitesOf (some t) p t.children := by
  cases t
  rfl

theorem sitesOf_eq_flatMap (p gp : Option Tree) (ts : List Tree) :
    sitesOf p gp ts = ts.flatMap (sites p gp) := by
  induction ts with
  | nil => rfl
  | cons t ts ih => rw [sitesOf, ih, List.flatMap_cons]

mutual
theorem map_node_sites : (t : Tree) → ∀ p gp, (sites p gp t).map (·.node) = t.walk
  | .node k f s cs, p, gp => by
    rw [sites, List.map_cons, map_node_sitesOf cs _ _, Tree.walk]

theorem map_node_sitesOf : (ts : List Tree) → ∀ p gp,
    (sitesOf p gp ts).map (·.node) = Tree.walkAll ts
  | [], _, _ => rfl
  | t :: ts, p, gp => by
    rw [sitesOf, List.map_append, map_node_sites t, map_node_sitesOf ts, Tree.walkAll]
end

theorem mem_walkAll_of_mem_sitesOf (h : s ∈ sitesOf p gp ts) : s.node ∈ Tree.walkAll ts :=
  map_node_sitesOf ts p gp ▸ List.mem_map_of_mem h

namespace Site

def under (s : Site) : List Site :=
  sites s.parent s.grandparent s.node

theorem under_eq_cons (s : Site) : s.under = s :: s.below.flatMap under := by
  rw [under, sites_eq_cons, sitesOf_eq_flatMap, below, List.flatMap_map]
  rfl

end Site

namespace Tour

variable {t u : Tour}

/-- One step of a tour. -/
def Step (t u : Tour) : Prop :=
  t.step = some u

/-- What a step does: the next site is passed, and those directly below it come next. -/
theorem Step.cases (h : Step t u) : ∃ s rest, t.stack = s :: rest ∧
    u = ⟨s :: t.passed, s.below ++ rest⟩ := by
  obtain ⟨passed, stack⟩ := t
  cases stack with
  | nil => cases h
  | cons s rest => exact ⟨s, rest, rfl, (Option.some.inj h).symm⟩

theorem step_eq_none (h : t.step = none) : t.stack = [] := by
  obtain ⟨passed, stack⟩ := t
  cases stack with
  | nil => rfl
  | cons s rest => cases h

theorem wellFounded_step : WellFounded fun u t : Tour => Step t u := by
  apply Subrelation.wf _ (InvImage.wf left wellFounded_lt)
  intro u t h
  exact Nat.le_of_eq (left_step h)

/-- All sites of a tour: those passed, and those at and below what is on the stack. -/
def all (t : Tour) : List Site :=
  t.passed.reverse ++ t.stack.flatMap Site.under

theorem all_step (h : Step t u) : u.all = t.all := by
  obtain ⟨s, rest, hstack, rfl⟩ := h.cases
  simp only [all, hstack, List.reverse_cons, List.flatMap_append, List.flatMap_cons,
    Site.under_eq_cons s, List.append_assoc, List.cons_append, List.nil_append]

theorem all_run (h : ReflTransGen Step t u) : u.all = t.all := by
  induction h with
  | refl => rfl
  | tail _ hstep ih => exact (all_step hstep).trans ih

theorem finish_run (t : Tour) :
    ∃ u, ReflTransGen Step t u ∧ u.stack = [] ∧ t.finish = u.passed.reverse := by
  induction t using wellFounded_step.induction with
  | _ t ih =>
    rw [finish]
    split
    · next h => exact ⟨t, .refl, step_eq_none h, rfl⟩
    · next u h =>
      obtain ⟨v, hrun, hempty, hfinish⟩ := ih u h
      exact ⟨v, .head h hrun, hempty, hfinish⟩

theorem finish_eq_all (t : Tour) : t.finish = t.all := by
  obtain ⟨u, hrun, hempty, hfinish⟩ := t.finish_run
  rw [hfinish, ← all_run hrun, all, hempty, List.flatMap_nil, List.append_nil]

end Tour

namespace Site

theorem walk_eq_under (s : Site) : s.walk = s.under := by
  rw [walk, Tour.finish_eq_all, Tour.all]
  simp

theorem walk_eq_cons (s : Site) : s.walk = s :: s.below.flatMap walk := by
  have hunder : walk = under := funext walk_eq_under
  rw [hunder, ← under_eq_cons]

theorem map_node_walk (s : Site) : s.walk.map (·.node) = s.node.walk := by
  rw [walk_eq_under]
  exact map_node_sites _ _ _

theorem ofTree_eq (root : Tree) : ofTree root = sites none none root :=
  walk_eq_under _

/-- The site a way down leads to, each number choosing one of those directly below. -/
def at? (s : Site) : List Nat → Option Site
  | [] => some s
  | i :: way => s.below[i]?.bind (·.at? way)

end Site

mutual
/-- The ways down to the nodes of a tree, by recursion. -/
def ways : Tree → List (List Nat)
  | .node _ _ _ cs => [] :: waysFrom 0 cs

/-- The ways down to the nodes of children, the first of which is chosen by `i`. -/
def waysFrom (i : Nat) : List Tree → List (List Nat)
  | [] => []
  | t :: ts => (ways t).map (i :: ·) ++ waysFrom (i + 1) ts
end

theorem mem_waysFrom : way ∈ waysFrom i ts ↔
    ∃ j more c, way = (i + j) :: more ∧ ts[j]? = some c ∧ more ∈ ways c := by
  induction ts generalizing i with
  | nil => simp [waysFrom]
  | cons t ts ih =>
    rw [waysFrom, List.mem_append, List.mem_map, ih]
    constructor
    · rintro (⟨more, hmore, rfl⟩ | ⟨j, more, c, rfl, hc, hmore⟩)
      · exact ⟨0, more, t, rfl, rfl, hmore⟩
      · exact ⟨j + 1, more, c, by rw [Nat.add_right_comm, Nat.add_assoc], hc, hmore⟩
    · rintro ⟨_ | j, more, c, rfl, hc, hmore⟩
      · exact .inl ⟨more, Option.some.inj hc ▸ hmore, rfl⟩
      · exact .inr ⟨j, more, c, by rw [Nat.add_right_comm, Nat.add_assoc], hc, hmore⟩

theorem ways_eq_cons (t : Tree) : ways t = [] :: waysFrom 0 t.children := by
  cases t
  rfl

theorem Site.getElem?_below (s : Site) (i : Nat) :
    s.below[i]? = s.node.children[i]?.map fun c => ⟨c, some s.node, s.parent⟩ :=
  List.getElem?_map

theorem mem_ways (s : Site) : way ∈ ways s.node ↔ (s.at? way).isSome := by
  induction way generalizing s with
  | nil => simp [ways_eq_cons, Site.at?]
  | cons i way ih =>
    rw [ways_eq_cons, List.mem_cons, mem_waysFrom, Site.at?, Site.getElem?_below]
    constructor
    · rintro (h | ⟨j, more, c, h, hc, hmore⟩)
      · cases h
      · rw [Nat.zero_add] at h
        cases h
        rw [hc]
        exact (ih _).mp hmore
    · intro h
      cases hc : s.node.children[i]? with
      | none => simp [hc] at h
      | some c =>
        rw [hc] at h
        exact .inr ⟨i, way, c, by rw [Nat.zero_add], hc, (ih ⟨c, _, _⟩).mpr h⟩

mutual
theorem ways_ordered : (t : Tree) → (ways t).Pairwise (· < ·)
  | .node _ _ _ cs => by
    refine List.pairwise_cons.mpr ⟨fun way hway => ?_, waysFrom_ordered 0 cs⟩
    obtain ⟨j, more, -, rfl, -⟩ := mem_waysFrom.mp hway
    exact List.nil_lt_cons _ _

theorem waysFrom_ordered (i : Nat) : (ts : List Tree) → (waysFrom i ts).Pairwise (· < ·)
  | [] => .nil
  | t :: ts => by
    refine List.pairwise_append.mpr ⟨List.pairwise_map.mpr ?_, waysFrom_ordered (i + 1) ts, ?_⟩
    · exact (ways_ordered t).imp fun h => List.cons_lt_cons_iff.mpr (.inr ⟨rfl, h⟩)
    · intro a ha b hb
      obtain ⟨way, -, rfl⟩ := List.mem_map.mp ha
      obtain ⟨j, more, -, rfl, -⟩ := mem_waysFrom.mp hb
      exact List.cons_lt_cons_iff.mpr (.inl (by omega))
end

mutual
theorem map_some_under : (t : Tree) → ∀ p gp,
    (sites p gp t).map some = (ways t).map (Site.at? ⟨t, p, gp⟩)
  | .node k f sp cs, p, gp => by
    rw [sites, ways, List.map_cons, List.map_cons]
    congr 1
    exact map_some_sitesOf cs ⟨.node k f sp cs, p, gp⟩ 0 rfl

theorem map_some_sitesOf : (ts : List Tree) → ∀ (s : Site) (i : Nat), s.node.children.drop i = ts →
    (sitesOf (some s.node) s.parent ts).map some = (waysFrom i ts).map s.at?
  | [], _, _, _ => rfl
  | t :: ts, s, i, h => by
    have hchild : s.node.children[i]? = some t := by
      rw [← List.head?_drop, h, List.head?_cons]
    have hrest : s.node.children.drop (i + 1) = ts := by
      rw [← List.tail_drop, h, List.tail_cons]
    rw [sitesOf, waysFrom, List.map_append, List.map_append, List.map_map, map_some_under t,
      map_some_sitesOf ts s (i + 1) hrest]
    congr 1
    apply List.map_congr_left
    intro way _
    rw [Function.comp_apply, Site.at?, Site.getElem?_below, hchild]
    rfl
end

/-- What it is to walk through the sites below any site. -/
structure IsWalk (walk : Site → List Site) : Prop where
  /-- However a tour begins, it cannot go on for ever. -/
  ends : WellFounded fun u t : Tour => Tour.Step t u
  /-- A tour from each site ends with nothing left to come, and what it has passed is listed. -/
  passed : ∀ s, ∃ t : Tour, ReflTransGen Tour.Step { stack := [s] } t ∧ t.stack = [] ∧
    walk s = t.passed.reverse
  /-- A site comes first, and is followed by the walks of those directly below it, in their order. -/
  preorder : ∀ s, walk s = s :: s.below.flatMap walk
  nodes : ∀ s, (walk s).map (·.node) = s.node.walk
  /-- Each way that leads to a site is taken once, and they are taken in order. -/
  once : ∀ s : Site, ∃ ways : List (List Nat), ways.Pairwise (· < ·) ∧
    (∀ way, way ∈ ways ↔ (s.at? way).isSome) ∧ (walk s).map some = ways.map s.at?

theorem isWalk : IsWalk Site.walk where
  ends := Tour.wellFounded_step
  passed s := Tour.finish_run _
  preorder := Site.walk_eq_cons
  nodes := Site.map_node_walk
  once s := ⟨ways s.node, ways_ordered s.node, fun _ => mem_ways s, by
    rw [Site.walk_eq_under]
    exact map_some_under s.node s.parent s.grandparent⟩

end GoAtlas.Reference
