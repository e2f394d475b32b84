import GoAtlas.Proofs.Graph.Cycles

namespace GoAtlas.Graph

open Relation

variable {g : Graph} {u v w : String}

namespace Walk

variable {s t : Walk}

/-- One step of a walk through a graph. -/
def Step (g : Graph) (s t : Walk) : Prop :=
  s.step g = some t

/-- What a step does: a node seen before is dropped, any other is seen and followed by its targets. -/
theorem Step.cases (h : Step g s t) : ∃ u rest, s.stack = u :: rest ∧
    ((u ∈ s.seen ∧ t = ⟨s.seen, rest⟩) ∨
      (u ∉ s.seen ∧
        t = ⟨u :: s.seen, ((g.successors u).filter (· ∉ u :: s.seen)).reverse ++ rest⟩)) := by
  obtain ⟨seen, stack⟩ := s
  cases stack with
  | nil => cases h
  | cons u rest =>
    by_cases hu : u ∈ seen
    · have ht := Option.some.inj ((step_seen hu).symm.trans h)
      exact ⟨u, rest, rfl, .inl ⟨hu, ht.symm⟩⟩
    · have ht := Option.some.inj ((step_unseen hu).symm.trans h)
      exact ⟨u, rest, rfl, .inr ⟨hu, ht.symm⟩⟩

theorem step_eq_none_iff : s.step g = none ↔ s.stack = [] := by
  obtain ⟨seen, stack⟩ := s
  cases stack with
  | nil => exact ⟨fun _ => rfl, fun _ => rfl⟩
  | cons u rest =>
    by_cases hu : u ∈ seen
    · simp [step_seen hu]
    · simp [step_unseen hu]

theorem wellFounded_step (g : Graph) : WellFounded fun t s : Walk => Step g s t := by
  have hlex : WellFounded (Prod.Lex (· < · : Nat → Nat → Prop) (· < · : Nat → Nat → Prop)) :=
    WellFounded.prod_lex wellFounded_lt wellFounded_lt
  apply Subrelation.wf _ (InvImage.wf (fun s : Walk => ((unseen g s.seen).length, s.stack.length)) hlex)
  intro t s h
  exact step_lt h

theorem finish_run (g : Graph) (s : Walk) :
    ReflTransGen (Step g) s (s.finish g) ∧ (s.finish g).stack = [] := by
  induction s using (wellFounded_step g).induction with
  | _ s ih =>
    rw [finish]
    split
    · next hnone => exact ⟨.refl, step_eq_none_iff.mp hnone⟩
    · next t ht =>
      obtain ⟨hrun, hempty⟩ := ih t ht
      exact ⟨.head ht hrun, hempty⟩

/-- A node that has been seen or is to be looked at. -/
def Known (s : Walk) (w : String) : Prop :=
  w ∈ s.seen ∨ w ∈ s.stack

theorem known_seen {seen rest : List String} (hu : u ∈ seen) :
    Known ⟨seen, rest⟩ w ↔ Known ⟨seen, u :: rest⟩ w := by
  have hw : w = u → w ∈ seen := fun h => h ▸ hu
  simp only [Known, List.mem_cons]
  tauto

theorem known_unseen {seen rest : List String} :
    Known ⟨u :: seen, ((g.successors u).filter (· ∉ u :: seen)).reverse ++ rest⟩ w ↔
      Known ⟨seen, u :: rest⟩ w ∨ g.Edge u w := by
  simp only [Known, List.mem_append, List.mem_reverse, List.mem_filter, List.mem_cons,
    decide_eq_true_eq, mem_successors]
  tauto

/-- What holds all along a walk from the targets of `v`: there is a path to every node known, and no
edge from `v` or from a node seen leads to one that is not known. -/
structure Explores (g : Graph) (v : String) (s : Walk) : Prop where
  path : ∀ w, s.Known w → TransGen g.Edge v w
  edge : ∀ u w, u = v ∨ u ∈ s.seen → g.Edge u w → s.Known w

theorem explores_start (g : Graph) (v : String) : Explores g v (start g v) := by
  have hknown : ∀ w, (start g v).Known w ↔ g.Edge v w := by
    intro w
    simp [Known, start, mem_successors]
  constructor
  · intro w hw
    exact .single ((hknown w).mp hw)
  · intro u w hu hedge
    obtain rfl : u = v := by simpa [start] using hu
    exact (hknown w).mpr hedge

theorem Explores.step (h : Explores g v s) (hstep : Step g s t) : Explores g v t := by
  obtain ⟨u, rest, hstack, hcases⟩ := hstep.cases
  obtain ⟨seen, stack⟩ := s
  subst hstack
  obtain ⟨hu, rfl⟩ | ⟨-, rfl⟩ := hcases
  · constructor
    · intro w hw
      exact h.path w ((known_seen hu).mp hw)
    · intro x w hx hedge
      exact (known_seen hu).mpr (h.edge x w hx hedge)
  · have hpath : TransGen g.Edge v u := h.path u (.inr List.mem_cons_self)
    constructor
    · intro w hw
      obtain hw | hedge := known_unseen.mp hw
      · exact h.path w hw
      · exact hpath.tail hedge
    · intro x w hx hedge
      by_cases hxu : x = u
      · exact known_unseen.mpr (.inr (hxu ▸ hedge))
      · have hx : x = v ∨ x ∈ seen := hx.imp_right fun hmem => (List.mem_cons.mp hmem).resolve_left hxu
        exact known_unseen.mpr (.inl (h.edge x w hx hedge))

theorem Explores.run (h : Explores g v s) (hrun : ReflTransGen (Step g) s t) : Explores g v t := by
  induction hrun with
  | refl => exact h
  | tail _ hstep ih => exact ih.step hstep

theorem Explores.mem_seen_iff (h : Explores g v s) (hempty : s.stack = []) :
    w ∈ s.seen ↔ TransGen g.Edge v w := by
  have hseen : ∀ x, s.Known x → x ∈ s.seen := by
    intro x hx
    exact hx.resolve_right (by simp [hempty])
  constructor
  · intro hw
    exact h.path w (.inl hw)
  · intro hpath
    induction hpath with
    | single hedge => exact hseen _ (h.edge v _ (.inl rfl) hedge)
    | tail _ hedge ih => exact hseen _ (h.edge _ _ (.inr ih) hedge)

end Walk

theorem mem_reachable : w ∈ g.reachable v ↔ TransGen g.Edge v w := by
  obtain ⟨hrun, hempty⟩ := Walk.finish_run g (.start g v)
  rw [reachable, mem_sortedSet]
  exact ((Walk.explores_start g v).run hrun).mem_seen_iff hempty

theorem nodes_closure (g : Graph) : g.closure.nodes = g.nodes := by
  rw [nodes, closure, List.map_map]
  rfl

theorem lookup_closure (hv : v ∈ g.nodes) : g.closure.lookup v = some (g.reachable v) := by
  cases hlookup : g.closure.lookup v with
  | none =>
    rw [← nodes_closure] at hv
    exact (Dict.lookup_eq_none_iff.mp hlookup hv).elim
  | some targets =>
    obtain ⟨e, -, he⟩ := List.mem_map.mp (Dict.mem_of_lookup hlookup)
    obtain ⟨rfl, rfl⟩ := Prod.mk.inj he
    rfl

theorem mem_nodes_of_lookup {targets : List String} (h : g.lookup v = some targets) : v ∈ g.nodes :=
  List.mem_map.mpr ⟨_, Dict.mem_of_lookup h, rfl⟩

theorem mem_targets_iff {targets : List String} (h : g.closure.lookup v = some targets) :
    w ∈ targets ↔ TransGen g.Edge v w := by
  have hnode : v ∈ g.nodes := nodes_closure g ▸ mem_nodes_of_lookup h
  rw [lookup_closure hnode] at h
  cases h
  exact mem_reachable

theorem self_mem_closure_iff :
    (∃ targets, g.closure.lookup v = some targets ∧ v ∈ targets) ↔ TransGen g.Edge v v := by
  constructor
  · intro h
    obtain ⟨targets, hlookup, hv⟩ := h
    exact (mem_targets_iff hlookup).mp hv
  · intro hpath
    obtain ⟨w, hedge, -⟩ := TransGen.head'_iff.mp hpath
    exact ⟨_, lookup_closure hedge.mem_nodes, mem_reachable.mpr hpath⟩

theorem mem_cycles_iff {c : List String} : c ∈ g.cycles ↔ g.IsCycle c := by
  obtain ⟨s, hs, hholds, hmet⟩ := search_ok g
  rw [cycles_eq hs]
  exact hholds.mem_found_iff hmet c

theorem exists_isClass (hedge : g.Edge v w) : ∃ c, g.IsClass c ∧ v ∈ c := by
  classical
  have hmem : ∀ x, g.Reaches v x → x ∈ g.vertices := by
    intro x hpath
    induction hpath with
    | refl => exact mem_vertices_of_mem_nodes hedge.mem_nodes
    | tail _ hlast _ => exact hlast.mem_vertices
  have hclass : ∀ x, x ∈ g.vertices.filter (fun x => decide (g.Linked v x)) ↔ g.Linked v x := by
    intro x
    rw [List.mem_filter, decide_eq_true_iff]
    exact and_iff_right_of_imp fun hlinked => hmem x hlinked.1
  exact ⟨_, ⟨(sortedSet_sorted _).filter _, v, hclass⟩, (hclass v).mpr ⟨.refl, .refl⟩⟩

theorem IsCycle.transGen {c : List String} (h : g.IsCycle c) (hv : v ∈ c) : TransGen g.Edge v v := by
  obtain ⟨hclass, hlong | ⟨u, rfl, hu⟩⟩ := h
  · obtain ⟨w, hw, hne⟩ := hclass.exists_ne hlong v
    obtain ⟨hpath, hback⟩ := (hclass.mem_iff hv).mp hw
    have hpath := (reflTransGen_iff_eq_or_transGen.mp hpath).resolve_left hne
    exact hpath.trans_left hback
  · rw [List.mem_singleton.mp hv]
    exact .single hu

theorem transGen_self_iff : TransGen g.Edge v v ↔ ∃ c ∈ g.cycles, v ∈ c := by
  constructor
  · intro hpath
    obtain ⟨w, hedge, hback⟩ := TransGen.head'_iff.mp hpath
    obtain ⟨c, hclass, hv⟩ := exists_isClass hedge
    refine ⟨c, mem_cycles_iff.mpr ⟨hclass, ?_⟩, hv⟩
    have hw : w ∈ c := (hclass.mem_iff hv).mpr ⟨.single hedge, hback⟩
    obtain hlong | hshort := lt_or_ge 1 c.length
    · exact .inl hlong
    · have hone : c.length = 1 := le_antisymm hshort (List.length_pos_of_mem hv)
      obtain ⟨u, rfl⟩ := List.length_eq_one_iff.mp hone
      rw [List.mem_singleton.mp hv, List.mem_singleton.mp hw] at hedge
      exact .inr ⟨u, rfl, hedge⟩
  · intro hcycle
    obtain ⟨c, hc, hv⟩ := hcycle
    exact (mem_cycles_iff.mp hc).transGen hv

/-- What the closure of a graph is. -/
structure IsClosure (g closure : Graph) : Prop where
  nodes : closure.nodes = g.nodes
  /-- However a walk begins, it cannot go on for ever. -/
  ends : WellFounded fun t s : Walk => Walk.Step g s t
  /-- A walk from each node ends with nothing left to look at, and what it has seen is listed. -/
  walked : ∀ v ∈ g.nodes, ∃ s : Walk, ReflTransGen (Walk.Step g) (.start g v) s ∧ s.stack = [] ∧
    closure.lookup v = some (sortedSet s.seen)
  /-- What is listed is what there is a path to, of at least one edge. -/
  mem_iff : ∀ v targets, closure.lookup v = some targets →
    ∀ w, w ∈ targets ↔ TransGen g.Edge v w
  /-- A node is listed as one of its own targets if it lies on a cycle. -/
  self_iff : ∀ v, (∃ targets, closure.lookup v = some targets ∧ v ∈ targets) ↔
    TransGen g.Edge v v
  cycles_iff : ∀ v, (∃ targets, closure.lookup v = some targets ∧ v ∈ targets) ↔
    ∃ c ∈ g.cycles, v ∈ c

theorem closure_exact (g : Graph) : g.IsClosure g.closure where
  nodes := nodes_closure g
  ends := Walk.wellFounded_step g
  walked v hv := by
    obtain ⟨hrun, hempty⟩ := Walk.finish_run g (.start g v)
    exact ⟨_, hrun, hempty, lookup_closure hv⟩
  mem_iff v targets hlookup w := mem_targets_iff hlookup
  self_iff v := self_mem_closure_iff
  cycles_iff v := self_mem_closure_iff.trans transGen_self_iff

example : closure [("a", ["b", "c"]), ("b", ["c", "a"]), ("d", ["a", "x"])] =
    [("a", ["a", "b", "c"]), ("b", ["a", "b", "c"]), ("d", ["a", "b", "c", "x"])] := by
  cbv

end GoAtlas.Graph
