import GoAtlas.Dict

namespace GoAtlas

/-- Texts in increasing order, each once. -/
def sortedSet (l : List String) : List String :=
  (l.mergeSort fun a b => decide (a ≤ b)).eraseDups

theorem mem_sortedSet {l : List String} {name : String} : name ∈ sortedSet l ↔ name ∈ l := by
  rw [sortedSet, List.mem_eraseDups, List.mem_mergeSort]

/-- The targets of each node; a target need not be a node with an entry of its own. -/
abbrev Graph := List (String × List String)

namespace Graph

def nodes (g : Graph) : List String :=
  g.map (·.1)

/-- The targets of a node in increasing order. -/
def successors (g : Graph) (v : String) : List String :=
  sortedSet ((g.lookup v).getD [])

/-- Every node that is the start or the end of an edge. -/
def vertices (g : Graph) : List String :=
  sortedSet (g.nodes ++ g.flatMap (·.2))

/-- A walk through a graph: the nodes seen, latest first, and the stack of those to look at, the next
one in front. A node may be on the stack several times, and be seen while it is there. -/
structure Walk where
  seen : List String := []
  stack : List String
  deriving DecidableEq, Repr

namespace Walk

variable {g : Graph} {v : String} {seen rest : List String} {s t : Walk}

/-- The walk from a node begins with its targets on the stack. -/
def start (g : Graph) (v : String) : Walk :=
  { stack := (g.successors v).reverse }

/-- Looks at the next node, if there is one. When it is seen for the first time, those of its targets
that have not been seen are put on the stack. -/
def step (g : Graph) (s : Walk) : Option Walk :=
  match s.stack with
  | [] => none
  | v :: rest =>
    if v ∈ s.seen then some { s with stack := rest }
    else
      let seen := v :: s.seen
      some { seen, stack := ((g.successors v).filter (· ∉ seen)).reverse ++ rest }

theorem step_seen (h : v ∈ seen) : step g ⟨seen, v :: rest⟩ = some ⟨seen, rest⟩ :=
  if_pos h

theorem step_unseen (h : v ∉ seen) : step g ⟨seen, v :: rest⟩ =
    some ⟨v :: seen, ((g.successors v).filter (· ∉ v :: seen)).reverse ++ rest⟩ :=
  if_neg h

/-- The nodes with an entry that are not among those seen. -/
def unseen (g : Graph) (seen : List String) : List String :=
  g.nodes.filter (· ∉ seen)

theorem unseen_of_mem (hv : v ∈ g.nodes) (hnew : v ∉ seen) :
    (unseen g (v :: seen)).length < (unseen g seen).length := by
  have hfilter : unseen g (v :: seen) = (unseen g seen).filter (· ≠ v) := by
    rw [unseen, unseen, List.filter_filter]
    apply List.filter_congr
    intro u _
    simp [not_or]
  rw [hfilter, List.length_filter_lt_length_iff_exists]
  exact ⟨v, List.mem_filter.mpr ⟨hv, by simpa using hnew⟩, by simp⟩

theorem unseen_of_not_mem (hv : v ∉ g.nodes) (seen : List String) :
    unseen g (v :: seen) = unseen g seen := by
  apply List.filter_congr
  intro u hu
  have hne : u ≠ v := fun h => hv (h ▸ hu)
  simp [hne]

theorem successors_of_not_mem (hv : v ∉ g.nodes) : g.successors v = [] := by
  rw [successors, Dict.lookup_eq_none_iff.mpr hv]
  simp [sortedSet]

/-- Each step sees another node with an entry, or takes a node off the stack and puts none there. -/
theorem step_lt (h : s.step g = some t) :
    Prod.Lex (· < ·) (· < ·) ((unseen g t.seen).length, t.stack.length)
      ((unseen g s.seen).length, s.stack.length) := by
  obtain ⟨seen, stack⟩ := s
  cases stack with
  | nil => cases h
  | cons v rest =>
    by_cases hseen : v ∈ seen
    · rw [step_seen hseen] at h
      cases h
      apply Prod.Lex.right
      exact Nat.lt_succ_self rest.length
    · rw [step_unseen hseen] at h
      cases h
      by_cases hv : v ∈ g.nodes
      · apply Prod.Lex.left
        exact unseen_of_mem hv hseen
      · rw [successors_of_not_mem hv, unseen_of_not_mem hv]
        apply Prod.Lex.right
        exact Nat.lt_succ_self rest.length

/-- Takes steps until the stack is empty. -/
def finish (g : Graph) (s : Walk) : Walk :=
  match _h : s.step g with
  | none => s
  | some t => t.finish g
termination_by ((unseen g s.seen).length, s.stack.length)
decreasing_by exact step_lt ‹_›

end Walk

/-- The nodes at the end of a path of at least one edge from `v`. -/
def reachable (g : Graph) (v : String) : List String :=
  sortedSet ((Walk.start g v).finish g).seen

/-- The reachable nodes of every node. -/
def closure (g : Graph) : Graph :=
  g.map fun (v, _) => (v, g.reachable v)

end Graph

end GoAtlas
