import Mathlib.Data.List.Sort
import Mathlib.Data.String.Basic
import Mathlib.Logic.Relation
import GoAtlas.Graph.Cycles

namespace GoAtlas

theorem pairwise_eraseDups {l : List String} (h : l.Pairwise (· ≤ ·)) :
    l.eraseDups.Pairwise (· < ·) := by
  induction hn : l.length using Nat.strong_induction_on generalizing l with
  | _ n ih =>
    cases l with
    | nil => exact List.Pairwise.nil
    | cons a l =>
      obtain ⟨ha, hl⟩ := List.pairwise_cons.mp h
      rw [List.eraseDups_cons]
      apply List.Pairwise.cons
      · intro b hb
        obtain ⟨hmem, hne⟩ := List.mem_filter.mp (List.mem_eraseDups.mp hb)
        exact lt_of_le_of_ne (ha b hmem) fun he => by simp [he] at hne
      · have hlength := List.length_filter_le (fun b => !b == a) l
        rw [List.length_cons] at hn
        exact ih _ (by omega) (hl.filter _) rfl

theorem sortedSet_sorted (l : List String) : (sortedSet l).Pairwise (· < ·) :=
  pairwise_eraseDups (List.pairwise_mergeSort' (· ≤ ·) l)

theorem sortedSet_congr {l l' : List String} (h : ∀ v, v ∈ l ↔ v ∈ l') :
    sortedSet l = sortedSet l' :=
  (sortedSet_sorted l).eq_of_mem_iff (sortedSet_sorted l') fun v => by
    rw [mem_sortedSet, mem_sortedSet, h v]

namespace Graph

open Relation

variable {g : Graph} {u v w : String} {c d : List String}

/-- An edge: the second node is a target of the first. -/
def Edge (g : Graph) (v w : String) : Prop :=
  ∃ targets, g.lookup v = some targets ∧ w ∈ targets

/-- There is a path from the first node to the second, perhaps without any edge. -/
abbrev Reaches (g : Graph) : String → String → Prop :=
  ReflTransGen g.Edge

/-- Each of two nodes can be reached from the other. -/
def Linked (g : Graph) (v w : String) : Prop :=
  g.Reaches v w ∧ g.Reaches w v

theorem mem_successors : w ∈ g.successors v ↔ g.Edge v w := by
  rw [successors, mem_sortedSet, Edge]
  cases g.lookup v <;> simp

theorem Edge.mem_nodes (h : g.Edge v w) : v ∈ g.nodes := by
  obtain ⟨targets, htargets, -⟩ := h
  exact List.mem_map.mpr ⟨_, Dict.mem_of_lookup htargets, rfl⟩

theorem Edge.mem_vertices (h : g.Edge v w) : w ∈ g.vertices := by
  obtain ⟨targets, htargets, hw⟩ := h
  apply mem_sortedSet.mpr
  apply List.mem_append_right
  exact List.mem_flatMap.mpr ⟨_, Dict.mem_of_lookup htargets, hw⟩

theorem mem_vertices_of_mem_nodes (h : v ∈ g.nodes) : v ∈ g.vertices :=
  mem_sortedSet.mpr (List.mem_append_left _ h)

theorem Linked.trans (h : g.Linked u v) (h' : g.Linked v w) : g.Linked u w :=
  ⟨h.1.trans h'.1, h'.2.trans h.2⟩

theorem Linked.symm (h : g.Linked v w) : g.Linked w v :=
  ⟨h.2, h.1⟩

/-- A class of nodes linked with each other, in increasing order. -/
def IsClass (g : Graph) (c : List String) : Prop :=
  c.Pairwise (· < ·) ∧ ∃ v, ∀ w, w ∈ c ↔ g.Linked v w

/-- A class of more than one node, or of a single node with an edge to itself. -/
def IsCycle (g : Graph) (c : List String) : Prop :=
  g.IsClass c ∧ (1 < c.length ∨ ∃ v, c = [v] ∧ g.Edge v v)

theorem IsClass.mem_iff (h : g.IsClass c) (hv : v ∈ c) : w ∈ c ↔ g.Linked v w := by
  obtain ⟨-, r, hr⟩ := h
  rw [hr] at hv ⊢
  exact ⟨hv.symm.trans, hv.trans⟩

theorem IsClass.ne_nil (h : g.IsClass c) : c ≠ [] := by
  obtain ⟨-, r, hr⟩ := h
  exact List.ne_nil_of_mem ((hr r).mpr ⟨.refl, .refl⟩)

theorem IsClass.eq_of_mem (h : g.IsClass c) (h' : g.IsClass d) (hc : v ∈ c) (hd : v ∈ d) :
    c = d :=
  h.1.eq_of_mem_iff h'.1 fun w => by rw [h.mem_iff hc, h'.mem_iff hd]

/-- A class of more than one node has another node beside any of them. -/
theorem IsClass.exists_ne (h : g.IsClass c) (hlong : 1 < c.length) (v : String) :
    ∃ w ∈ c, w ≠ v := by
  by_contra hnone
  push Not at hnone
  have hsub : c ⊆ [v] := fun w hw => List.mem_singleton.mpr (hnone w hw)
  exact absurd hlong (not_lt.mpr (List.subperm_of_subset h.1.nodup hsub).length_le)

theorem IsCycle.exists_edge (h : g.IsCycle c) (hv : v ∈ c) : ∃ w, g.Edge v w := by
  obtain ⟨hclass, hlong | ⟨u, rfl, hu⟩⟩ := h
  · obtain ⟨w, hw, hne⟩ := hclass.exists_ne hlong v
    obtain he | ⟨x, hx, -⟩ := ((hclass.mem_iff hv).mp hw).1.cases_head
    · exact (hne he.symm).elim
    · exact ⟨x, hx⟩
  · exact ⟨u, by rwa [List.mem_singleton.mp hv]⟩

end Graph

end GoAtlas
