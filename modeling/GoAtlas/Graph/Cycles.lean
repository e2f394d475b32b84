import GoAtlas.Dict
import GoAtlas.Graph

namespace GoAtlas.Graph

/-- What a search must never come across. -/
inductive Breach where
  /-- A node without a number, or without a low link. -/
  | unnumbered (v : String)
  /-- A node on the stack that is not marked as waiting. -/
  | unmarked (v : String)
  /-- The first node of a component, missing from the stack. -/
  | uprooted (v : String)
  /-- A path longer than the search may follow. -/
  | tooDeep (v : String)
  deriving DecidableEq, Repr

/-- The state of a search; the stack has the latest node in front, and the nodes marked as waiting
are those on it. -/
structure Search where
  count : Nat := 0
  number : Dict String Nat := []
  low : Dict String Nat := []
  stack : List String := []
  waiting : List String := []
  found : List (List String) := []
  deriving DecidableEq, Repr

namespace Search

/-- The number a node must have. -/
def entry (d : Dict String Nat) (v : String) : Except Breach Nat :=
  match d.lookup v with
  | some n => .ok n
  | none => .error (.unnumbered v)

/-- Gives a node the next number and puts it on the stack. -/
def enter (s : Search) (v : String) : Search :=
  { s with
    count := s.count + 1
    number := s.number.put v s.count
    low := s.low.put v s.count
    stack := v :: s.stack
    waiting := s.waiting.insert v }

/-- Lowers the low link of a node to `n` if it is above. -/
def lower (s : Search) (v : String) (n : Nat) : Except Breach Search := do
  let low ← entry s.low v
  return { s with low := s.low.put v (min low n) }

/-- Follows an edge from `v`: its end is searched first if it has not been met. -/
def follow (descend : String → Search → Except Breach Search) (v : String) (s : Search)
    (w : String) : Except Breach Search := do
  if (s.number.lookup w).isNone then
    let s ← descend w s
    s.lower v (← entry s.low w)
  else if w ∈ s.waiting then s.lower v (← entry s.number w)
  else return s

/-- Takes the nodes of a stack down to `root` off, and their marks: those taken, and what is left of
the stack and of the marks. -/
def takeOff (root : String) :
    List String → List String → Except Breach (List String × List String × List String)
  | [], _ => .error (.uprooted root)
  | v :: stack, waiting =>
    if v ∈ waiting then
      if v = root then .ok ([v], stack, waiting.erase v)
      else do
        let (taken, left) ← takeOff root stack (waiting.erase v)
        return (v :: taken, left)
    else .error (.unmarked v)

/-- Completes the component of `v`, which leaves a stack and its marks: it is kept in increasing order
if it is a cycle. -/
def complete (g : Graph) (v : String) (s : Search) (component stack waiting : List String) : Search :=
  let cycle := component.mergeSort fun a b => decide (a ≤ b)
  { s with
    stack, waiting
    found := if 1 < component.length ∨ v ∈ g.successors v then s.found ++ [cycle] else s.found }

/-- Leaves a node. If it is the first of its component, the component is taken off the stack. -/
def leave (g : Graph) (v : String) (s : Search) : Except Breach Search := do
  if (← entry s.low v) = (← entry s.number v) then
    let (component, stack, waiting) ← takeOff v s.stack s.waiting
    return s.complete g v component stack waiting
  else return s

end Search

/-- Searches from a node that has not been met, along at most `depth` nodes. -/
def connect (g : Graph) : Nat → String → Search → Except Breach Search
  | 0, v, _ => .error (.tooDeep v)
  | depth + 1, v, s => do
    let s ← (g.successors v).foldlM (Search.follow (connect g depth) v) (s.enter v)
    s.leave g v

/-- Searches from each of the nodes that has not been met when it is its turn. -/
def connectAll (g : Graph) (depth : Nat) (vs : List String) : Except Breach Search :=
  vs.foldlM (fun s v => if (s.number.lookup v).isNone then connect g depth v s else .ok s) {}

/-- Searches a whole graph from its smallest node on, along paths of any length. -/
def search (g : Graph) : Except Breach Search :=
  g.connectAll g.vertices.length (sortedSet g.nodes)

/-- The cycles of a graph: components of several nodes, and nodes with an edge to themselves. -/
def cycles (g : Graph) : List (List String) :=
  match g.search with
  | .ok s => s.found
  | .error _ => []

end GoAtlas.Graph
