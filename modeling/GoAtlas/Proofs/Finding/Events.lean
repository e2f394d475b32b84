import GoAtlas.Finding.Complexity
import GoAtlas.Proofs.Syntax.Marks
import Mathlib

namespace GoAtlas.Finding

open Syntax

namespace Tally

instance : Zero Tally := ⟨{}⟩

@[simp] theorem paths_zero : (0 : Tally).paths = 0 := rfl
@[simp] theorem effort_zero : (0 : Tally).effort = 0 := rfl
@[simp] theorem locals_zero : (0 : Tally).locals = 0 := rfl
@[simp] theorem blocks_zero : (0 : Tally).blocks = 0 := rfl
@[simp] theorem depth_zero : (0 : Tally).depth = 0 := rfl

variable (a b : Tally)

@[simp] theorem paths_add : (a + b).paths = a.paths + b.paths := rfl
@[simp] theorem effort_add : (a + b).effort = a.effort + b.effort := rfl
@[simp] theorem locals_add : (a + b).locals = a.locals + b.locals := rfl
@[simp] theorem blocks_add : (a + b).blocks = a.blocks + b.blocks := rfl
@[simp] theorem depth_add : (a + b).depth = max a.depth b.depth := rfl

@[ext] theorem ext {a b : Tally} (hp : a.paths = b.paths) (he : a.effort = b.effort)
    (hl : a.locals = b.locals) (hb : a.blocks = b.blocks) (hd : a.depth = b.depth) : a = b := by
  cases a
  cases b
  simp_all

instance : AddCommMonoid Tally where
  add_assoc a b c := by ext <;> simp [Nat.add_assoc, max_assoc]
  zero_add a := by ext <;> simp
  add_zero a := by ext <;> simp
  add_comm a b := by ext <;> simp [Nat.add_comm, max_comm]
  nsmul := nsmulRec

def pathCount : Tally →+ Nat where
  toFun := paths
  map_zero' := rfl
  map_add' _ _ := rfl

def effortCount : Tally →+ Nat where
  toFun := effort
  map_zero' := rfl
  map_add' _ _ := rfl

theorem effortCount_apply : effortCount a = a.effort := rfl

def localCount : Tally →+ Nat where
  toFun := locals
  map_zero' := rfl
  map_add' _ _ := rfl

variable {α : Type} (f : α → Tally)

theorem le_depth_sum {l : List α} {x : α} (hx : x ∈ l) : (f x).depth ≤ ((l.map f).sum).depth := by
  induction l with
  | nil => cases hx
  | cons y l ih =>
    rw [List.map_cons, List.sum_cons, depth_add]
    rcases List.mem_cons.mp hx with rfl | hx
    · exact Nat.le_max_left _ _
    · exact (ih hx).trans (Nat.le_max_right _ _)

end Tally

namespace Count

def depth : Count → Nat
  | .statement depth | .contents depth | .literals depth => depth

def deeper (n : Nat) : Count → Count
  | .statement depth => .statement (depth + n)
  | .contents depth => .contents (depth + n)
  | .literals depth => .literals (depth + n)

/-- Counts the named children for the function literals in them. -/
def ofLiterals (depth : Nat) (t : Tree) : Option Count :=
  if t.kind.isNamed then some (.literals depth) else none

/-- Counts the clauses of a switch or select statement. -/
def ofClauses (depth : Nat) (t : Tree) : Option Count :=
  if t.isClause then some (.contents depth) else none

/-- The nodes that are taken up, each with how it is counted. -/
def select (f : Tree → Option Count) (ts : List Tree) : List (Count × Tree) :=
  ts.filterMap fun t => (f t).map (·, t)

def labeled? (ts : List Tree) : Option Tree :=
  ts.find? fun t => t.kind.isNamed && t.kind != .labelName

/-- The children that are counted next, and how. -/
def next (t : Tree) : Count → List (Count × Tree)
  | .literals depth => if t.kind = .funcLiteral then [] else select (ofLiterals depth) t.children
  | .contents depth => select (ofStatements depth) t.children
  | .statement depth =>
    match t.kind with
    | .ifStatement =>
      select (inPart .initializer (.statement (depth + 1))) t.children
        ++ select (inPart .condition (.literals depth)) t.children
        ++ select (inPart .consequence (.statement (depth + 1))) t.children
        ++ select (ofAlternative depth) t.children
    | .forStatement => select (inPart .body (.statement (depth + 1))) t.children
    | .expressionSwitchStatement | .typeSwitchStatement | .selectStatement =>
      select (ofClauses (depth + 1)) t.children
    | .block => select (ofStatements depth) t.children
    | .labeledStatement => (labeled? t.children).toList.map (.statement depth, ·)
    | .funcLiteral => []
    | _ => select (ofLiterals depth) t.children

/-- The kinds of the nodes that are weighed. -/
def isWeighed : Kind → Bool
  | .ifStatement | .forStatement | .expressionSwitchStatement | .typeSwitchStatement
  | .selectStatement | .goStatement | .deferStatement | .funcLiteral => true
  | _ => false

/-- Whether a node is weighed when it is counted this way. -/
def weighs (t : Tree) : Count → Bool
  | .literals _ => t.kind = .funcLiteral
  | .contents _ => false
  | .statement _ => isWeighed t.kind

def own (source : ByteArray) (t : Tree) : Count → Tally
  | .literals depth => if t.kind = .funcLiteral then .decision depth else 0
  | .contents _ => 0
  | .statement depth =>
    match t.kind with
    | .ifStatement => .branching depth (1 + elsePaths t)
    | .forStatement => .branching depth 1
    | .expressionSwitchStatement | .typeSwitchStatement => .branching depth (switchPaths t)
    | .selectStatement => .branching depth t.clauses.length
    | .block => { blocks := if depth = 0 then 0 else 1, depth }
    | .labeledStatement => 0
    | .goStatement | .deferStatement | .funcLiteral => .decision depth
    | k =>
      { locals :=
          if k = .shortVarDeclaration then shortVariables source t
          else if k = .varDeclaration then declaredVariables t
          else 0 }

end Count

open Finding.Count

variable {source : ByteArray} {t u : Tree} {ts : List Tree} {count : Count}

theorem mem_select {f : Tree → Option Count} {x : Count × Tree} (h : x ∈ select f ts) :
    x.2 ∈ ts ∧ f x.2 = some x.1 := by
  obtain ⟨t, ht, hx⟩ := List.mem_filterMap.mp h
  obtain ⟨c, hc, rfl⟩ := Option.map_eq_some_iff.mp hx
  exact ⟨ht, hc⟩

theorem mem_children_of_mem_next {x : Count × Tree} (h : x ∈ next t count) :
    x.2 ∈ t.children := by
  cases count with
  | literals depth =>
    simp only [next] at h
    split at h
    · cases h
    · exact (mem_select h).1
  | contents depth => exact (mem_select h).1
  | statement depth =>
    simp only [next] at h
    split at h
    · simp only [List.mem_append] at h
      rcases h with ((h | h) | h) | h <;> exact (mem_select h).1
    · exact (mem_select h).1
    · exact (mem_select h).1
    · exact (mem_select h).1
    · exact (mem_select h).1
    · exact (mem_select h).1
    · obtain ⟨v, hv, rfl⟩ := List.mem_map.mp h
      exact List.mem_of_find?_eq_some (Option.mem_toList.mp hv)
    · cases h
    · exact (mem_select h).1

theorem tallyOf_eq (source : ByteArray) (f : Tree → Option Count) (ts : List Tree) :
    tallyOf source f ts = ((select f ts).map fun x => tally source x.1 x.2).sum := by
  induction ts with
  | nil => rfl
  | cons t ts ih =>
    rw [tallyOf, ih, select, select, List.filterMap_cons]
    cases f t with
    | none => exact zero_add _
    | some c => rfl

theorem tallyClauses_eq (source : ByteArray) (depth : Nat) (ts : List Tree) :
    tallyClauses source depth ts = tallyOf source (ofClauses depth) ts := by
  induction ts with
  | nil => rfl
  | cons t ts ih =>
    rw [tallyClauses, tallyOf, ih, ofClauses]
    cases t.isClause <;> rfl

theorem tallyLabeled_eq (source : ByteArray) (depth : Nat) (ts : List Tree) :
    tallyLabeled source depth ts =
      ((labeled? ts).toList.map fun t => tally source (.statement depth) t).sum := by
  induction ts with
  | nil => rfl
  | cons t ts ih =>
    rw [tallyLabeled, labeled?, List.find?_cons]
    split
    · next h => simp [h]
    · next h =>
      rw [ih, labeled?]
      simp [h]

/-- What a node adds, by itself and by the nodes that are counted next. -/
theorem tally_eq (source : ByteArray) (count : Count) (t : Tree) :
    tally source count t =
      count.own source t + ((count.next t).map fun x => tally source x.1 x.2).sum := by
  have hkind : ∀ {k f s cs}, (Syntax.Tree.node k f s cs).kind = k := rfl
  have hchildren : ∀ {k f s cs}, (Syntax.Tree.node k f s cs).children = cs := rfl
  obtain ⟨k, f, s, cs⟩ := t
  cases count with
  | literals depth =>
    simp only [tally, own, next, hkind, hchildren]
    split
    · exact (add_zero (Tally.decision depth)).symm
    · rw [zero_add, ← tallyOf_eq]
      rfl
  | contents depth =>
    simp only [tally, own, next, hchildren]
    rw [zero_add, ← tallyOf_eq]
  | statement depth =>
    simp only [tally, own, next, hkind, hchildren]
    split
    · simp only [List.map_append, List.sum_append, ← tallyOf_eq, add_assoc]
    · rw [← tallyOf_eq]
    · rw [← tallyOf_eq, tallyClauses_eq]
    · rw [← tallyOf_eq, tallyClauses_eq]
    · rw [← tallyOf_eq, tallyClauses_eq]
    · rw [← tallyOf_eq]
    · rw [zero_add, tallyLabeled_eq, List.map_map]
      rfl
    · rw [← tallyOf_eq]
      rfl
    · rw [← tallyOf_eq]
      rfl
    · exact (add_zero (Tally.decision depth)).symm
    · rw [tallyOf_eq]
      refine congrArg₂ (· + ·) ?_ ?_
      · symm
        split <;> first | contradiction | rfl
      · split <;> first | contradiction | rfl

/-- Whatever is handed on from the nodes counted next to the node itself holds of all nodes. -/
theorem count_induction {P : Count → Tree → Prop}
    (h : ∀ count t, (∀ x ∈ count.next t, P x.1 x.2) → P count t) (count : Count) (t : Tree) :
    P count t := by
  apply h
  intro x hx
  exact count_induction h x.1 x.2
termination_by sizeOf t
decreasing_by exact Tree.sizeOf_lt_of_mem_children (mem_children_of_mem_next hx)

/-- A node that is weighed, and the depth at which it is. -/
structure Event where
  node : Tree
  depth : Nat

namespace Event

def weight (e : Event) : Nat := 1 + e.depth

def deeper (n : Nat) (e : Event) : Event := { e with depth := e.depth + n }

end Event

/-- The events of a node that is counted: the node itself if it is weighed, and those of the nodes
counted next. -/
def events (count : Count) (t : Tree) : List Event :=
  (if count.weighs t then [⟨t, count.depth⟩] else [])
    ++ (count.next t).attach.flatMap fun x => events x.1.1 x.1.2
termination_by sizeOf t
decreasing_by exact Tree.sizeOf_lt_of_mem_children (mem_children_of_mem_next x.2)

theorem events_eq (count : Count) (t : Tree) :
    events count t = (if count.weighs t then [⟨t, count.depth⟩] else [])
      ++ (count.next t).flatMap fun x => events x.1 x.2 := by
  rw [events, List.flatMap_subtype (g := fun x => events x.1 x.2) fun _ _ => rfl,
    List.unattach_attach]

theorem own_effort (source : ByteArray) (count : Count) (t : Tree) :
    (count.own source t).effort = if count.weighs t then 1 + count.depth else 0 := by
  cases count with
  | literals depth =>
    simp only [own, weighs, Count.depth, decide_eq_true_eq]
    split <;> rfl
  | contents depth => rfl
  | statement depth =>
    obtain ⟨k, f, s, cs⟩ := t
    cases k <;> rfl

theorem tally_effort (source : ByteArray) (count : Count) (t : Tree) :
    (tally source count t).effort = ((events count t).map Event.weight).sum := by
  change Tally.effortCount _ = _
  induction count, t using count_induction with
  | h count t ih =>
    rw [tally_eq, events_eq, map_add, map_list_sum, List.map_map, List.map_append,
      List.sum_append, List.map_flatMap]
    congr 1
    · rw [Tally.effortCount_apply, own_effort]
      split <;> rfl
    · rw [List.flatMap_def, List.sum_flatten, List.map_map]
      congr 1
      apply List.map_congr_left
      intro x hx
      exact ih x hx

theorem select_map {f g : Tree → Option Count} {h : Count → Count}
    (hf : ∀ t, g t = (f t).map h) (ts : List Tree) :
    select g ts = (select f ts).map fun x => (h x.1, x.2) := by
  simp only [select, List.map_filterMap, hf, Option.map_map]
  rfl

theorem ofLiterals_deeper (n depth : Nat) (t : Tree) :
    ofLiterals (depth + n) t = (ofLiterals depth t).map (deeper n) := by
  simp only [ofLiterals]
  split <;> rfl

theorem ofClauses_deeper (n depth : Nat) (t : Tree) :
    ofClauses (depth + n) t = (ofClauses depth t).map (deeper n) := by
  simp only [ofClauses]
  split <;> rfl

theorem ofStatements_deeper (n depth : Nat) (t : Tree) :
    ofStatements (depth + n) t = (ofStatements depth t).map (deeper n) := by
  simp only [ofStatements]
  split
  · split <;> rfl
  · rfl

theorem inPart_deeper (f : Field) (n : Nat) (count : Count) (t : Tree) :
    inPart f (count.deeper n) t = (inPart f count t).map (deeper n) := by
  simp only [inPart]
  split <;> rfl

theorem ofAlternative_deeper (n depth : Nat) (t : Tree) :
    ofAlternative (depth + n) t = (ofAlternative depth t).map (deeper n) := by
  simp only [ofAlternative]
  split
  · split
    · rfl
    · simp only [Option.map_some, deeper, Nat.add_right_comm]
  · rfl

theorem weighs_deeper (n : Nat) (count : Count) (t : Tree) :
    (count.deeper n).weighs t = count.weighs t := by
  cases count <;> rfl

theorem depth_deeper (n : Nat) (count : Count) : (count.deeper n).depth = count.depth + n := by
  cases count <;> rfl

theorem next_deeper (n : Nat) (count : Count) (t : Tree) :
    (count.deeper n).next t = (count.next t).map fun x => (x.1.deeper n, x.2) := by
  cases count with
  | literals depth =>
    simp only [deeper, next]
    split
    · rfl
    · exact select_map (ofLiterals_deeper n depth) _
  | contents depth => exact select_map (ofStatements_deeper n depth) _
  | statement depth =>
    have hcomm : depth + n + 1 = depth + 1 + n := Nat.add_right_comm depth n 1
    have hpart (f : Field) := select_map (inPart_deeper f n (.statement (depth + 1))) t.children
    rw [deeper, ← hcomm] at hpart
    simp only [deeper, next]
    split
    · have hcondition := select_map (inPart_deeper .condition n (.literals depth)) t.children
      have halternative := select_map (ofAlternative_deeper n depth) t.children
      rw [deeper] at hcondition
      rw [hpart, hpart, hcondition, halternative, List.map_append, List.map_append, List.map_append]
      rfl
    · exact hpart .body
    · rw [Nat.add_right_comm, select_map (ofClauses_deeper n (depth + 1))]
      rfl
    · rw [Nat.add_right_comm, select_map (ofClauses_deeper n (depth + 1))]
      rfl
    · rw [Nat.add_right_comm, select_map (ofClauses_deeper n (depth + 1))]
      rfl
    · exact select_map (ofStatements_deeper n depth) _
    · rw [List.map_map]
      rfl
    · rfl
    · exact select_map (ofLiterals_deeper n depth) _

theorem events_deeper (n : Nat) (count : Count) (t : Tree) :
    events (count.deeper n) t = (events count t).map (Event.deeper n) := by
  induction count, t using count_induction with
  | h count t ih =>
    rw [events_eq, events_eq, weighs_deeper, depth_deeper, next_deeper, List.map_append,
      List.flatMap_map, List.map_flatMap]
    congr 1
    · split <;> rfl
    · apply List.flatMap_congr
      intro x hx
      exact ih x hx

theorem own_paths_deeper (source : ByteArray) (n : Nat) (count : Count) (t : Tree) :
    ((count.deeper n).own source t).paths = (count.own source t).paths := by
  cases count with
  | literals depth =>
    simp only [deeper, own]
    split <;> rfl
  | contents depth => rfl
  | statement depth =>
    simp only [deeper, own]
    split <;> rfl

theorem own_locals_deeper (source : ByteArray) (n : Nat) (count : Count) (t : Tree) :
    ((count.deeper n).own source t).locals = (count.own source t).locals := by
  cases count with
  | literals depth =>
    simp only [deeper, own]
    split <;> rfl
  | contents depth => rfl
  | statement depth =>
    simp only [deeper, own]
    split <;> rfl

theorem measure_deeper (m : Tally →+ Nat) (source : ByteArray) (n : Nat)
    (hown : ∀ count t, m ((deeper n count).own source t) = m (count.own source t))
    (count : Count) (t : Tree) :
    m (tally source (count.deeper n) t) = m (tally source count t) := by
  induction count, t using count_induction with
  | h count t ih =>
    rw [tally_eq, tally_eq, map_add, map_add, hown, next_deeper, map_list_sum, map_list_sum,
      List.map_map, List.map_map, List.map_map]
    congr 2
    apply List.map_congr_left
    intro x hx
    exact ih x hx

theorem tally_paths_deeper (source : ByteArray) (n : Nat) (count : Count) (t : Tree) :
    (tally source (count.deeper n) t).paths = (tally source count t).paths :=
  measure_deeper Tally.pathCount source n (own_paths_deeper source n) count t

theorem tally_locals_deeper (source : ByteArray) (n : Nat) (count : Count) (t : Tree) :
    (tally source (count.deeper n) t).locals = (tally source count t).locals :=
  measure_deeper Tally.localCount source n (own_locals_deeper source n) count t

theorem weight_sum_deeper (n : Nat) (l : List Event) :
    ((l.map (Event.deeper n)).map Event.weight).sum
      = (l.map Event.weight).sum + n * l.length := by
  induction l with
  | nil => rfl
  | cons e l ih =>
    simp only [List.map_cons, List.sum_cons, List.length_cons, ih, Event.weight, Event.deeper]
    rw [Nat.mul_succ]
    omega

theorem tally_effort_deeper (source : ByteArray) (n : Nat) (count : Count) (t : Tree) :
    (tally source (count.deeper n) t).effort
      = (tally source count t).effort + n * (events count t).length := by
  rw [tally_effort, tally_effort, events_deeper, weight_sum_deeper]

/-- A selector whose counts are at most this deep. -/
def Count.Within (d : Nat) (f : Tree → Option Count) : Prop :=
  ∀ t c, f t = some c → c.depth ≤ d

theorem Count.Within.of_mem {f : Tree → Option Count} {d : Nat} (hf : Within d f)
    {x : Count × Tree} (h : x ∈ select f ts) : x.1.depth ≤ d :=
  hf x.2 x.1 (mem_select h).2

theorem ofLiterals_within (d : Nat) : Within d (ofLiterals d) := by
  intro t c h
  obtain ⟨-, h⟩ := Option.ite_none_right_eq_some.mp h
  cases h
  exact Nat.le_refl d

theorem ofClauses_within (d : Nat) : Within d (ofClauses d) := by
  intro t c h
  obtain ⟨-, h⟩ := Option.ite_none_right_eq_some.mp h
  cases h
  exact Nat.le_refl d

theorem ofStatements_within (d : Nat) : Within d (ofStatements d) := by
  intro t c h
  obtain ⟨-, h⟩ := Option.ite_none_right_eq_some.mp h
  cases h
  split <;> exact Nat.le_refl d

theorem inPart_within (f : Field) (count : Count) : Within count.depth (inPart f count) := by
  intro t c h
  obtain ⟨-, h⟩ := Option.ite_none_right_eq_some.mp h
  cases h
  exact Nat.le_refl _

theorem ofAlternative_within (d : Nat) : Within (d + 1) (ofAlternative d) := by
  intro t c h
  obtain ⟨-, h⟩ := Option.ite_none_right_eq_some.mp h
  cases h
  simp only [Count.depth]
  split <;> omega

theorem own_depth_of_branching (source : ByteArray) {d : Nat}
    (h : t.kind = .ifStatement ∨ t.kind = .forStatement ∨ t.kind = .expressionSwitchStatement
      ∨ t.kind = .typeSwitchStatement ∨ t.kind = .selectStatement) :
    (own source t (.statement d)).depth = d + 1 := by
  rcases h with h | h | h | h | h <;> simp only [own, h, Tally.branching]

theorem depth_next (source : ByteArray) {x : Count × Tree} (h : x ∈ count.next t) :
    x.1.depth ≤ max count.depth (count.own source t).depth := by
  cases count with
  | literals d =>
    apply le_max_of_le_left
    simp only [next] at h
    split at h
    · cases h
    · exact (ofLiterals_within d).of_mem h
  | contents d => exact le_max_of_le_left ((ofStatements_within d).of_mem h)
  | statement d =>
    simp only [next] at h
    split at h
    · next hk =>
      rw [own_depth_of_branching source (.inl hk)]
      apply le_max_of_le_right
      simp only [List.mem_append] at h
      rcases h with ((h | h) | h) | h
      · exact (inPart_within .initializer (.statement (d + 1))).of_mem h
      · exact ((inPart_within .condition (.literals d)).of_mem h).trans (Nat.le_succ d)
      · exact (inPart_within .consequence (.statement (d + 1))).of_mem h
      · exact (ofAlternative_within d).of_mem h
    · next hk =>
      rw [own_depth_of_branching source (.inr (.inl hk))]
      exact le_max_of_le_right ((inPart_within .body (.statement (d + 1))).of_mem h)
    · next hk =>
      rw [own_depth_of_branching source (.inr (.inr (.inl hk)))]
      exact le_max_of_le_right ((ofClauses_within (d + 1)).of_mem h)
    · next hk =>
      rw [own_depth_of_branching source (.inr (.inr (.inr (.inl hk))))]
      exact le_max_of_le_right ((ofClauses_within (d + 1)).of_mem h)
    · next hk =>
      rw [own_depth_of_branching source (.inr (.inr (.inr (.inr hk))))]
      exact le_max_of_le_right ((ofClauses_within (d + 1)).of_mem h)
    · exact le_max_of_le_left ((ofStatements_within d).of_mem h)
    · obtain ⟨v, -, rfl⟩ := List.mem_map.mp h
      exact Nat.le_max_left _ _
    · cases h
    · exact le_max_of_le_left ((ofLiterals_within d).of_mem h)

theorem depth_of_mem_events (source : ByteArray) (count : Count) (t : Tree) :
    ∀ e ∈ events count t, e.depth ≤ max count.depth (tally source count t).depth := by
  induction count, t using count_induction with
  | h count t ih =>
    intro e he
    rw [events_eq, List.mem_append, List.mem_flatMap] at he
    rcases he with he | ⟨x, hx, he⟩
    · split at he
      · cases List.mem_singleton.mp he
        exact Nat.le_max_left _ _
      · cases he
    · have hinner := ih x hx e he
      have hlevel := depth_next source hx
      have hsum := Tally.le_depth_sum (fun x => tally source x.1 x.2) hx
      rw [tally_eq, Tally.depth_add]
      simp only [le_max_iff] at hinner hlevel ⊢
      omega

/-- What statements add on a level. -/
def tallyRow (source : ByteArray) (depth : Nat) (ts : List Tree) : Tally :=
  tallyOf source (fun _ => some (.statement depth)) ts

/-- The events of statements on the outermost level. -/
def eventsOfRow (ts : List Tree) : List Event :=
  ts.flatMap (events (.statement 0))

theorem tallyRow_append (source : ByteArray) (depth : Nat) (ts us : List Tree) :
    tallyRow source depth (ts ++ us) = tallyRow source depth ts + tallyRow source depth us := by
  rw [tallyRow, tallyRow, tallyRow, tallyOf_eq, tallyOf_eq, tallyOf_eq, select, select, select,
    List.filterMap_append, List.map_append, List.sum_append]

theorem tallyRow_paths (source : ByteArray) (depth : Nat) (ts : List Tree) :
    (tallyRow source depth ts).paths = (tallyRow source 0 ts).paths := by
  induction ts with
  | nil => rfl
  | cons t ts ih =>
    have ht := tally_paths_deeper source depth (.statement 0) t
    rw [deeper, Nat.zero_add] at ht
    exact congrArg₂ (· + ·) ht ih

theorem tallyRow_locals (source : ByteArray) (depth : Nat) (ts : List Tree) :
    (tallyRow source depth ts).locals = (tallyRow source 0 ts).locals := by
  induction ts with
  | nil => rfl
  | cons t ts ih =>
    have ht := tally_locals_deeper source depth (.statement 0) t
    rw [deeper, Nat.zero_add] at ht
    exact congrArg₂ (· + ·) ht ih

theorem length_eventsOfRow_cons (t : Tree) (ts : List Tree) :
    (eventsOfRow (t :: ts)).length
      = (events (.statement 0) t).length + (eventsOfRow ts).length := by
  rw [eventsOfRow, List.flatMap_cons, List.length_append]
  rfl

theorem tallyRow_effort (source : ByteArray) (depth : Nat) (ts : List Tree) :
    (tallyRow source depth ts).effort
      = (tallyRow source 0 ts).effort + depth * (eventsOfRow ts).length := by
  induction ts with
  | nil => rfl
  | cons t ts ih =>
    have ht := tally_effort_deeper source depth (.statement 0) t
    rw [deeper, Nat.zero_add] at ht
    simp only [tallyRow, tallyOf, Tally.effort_add, ht] at ih ⊢
    rw [ih, length_eventsOfRow_cons, Nat.mul_add]
    omega

theorem tallyRow_weight (source : ByteArray) (ts : List Tree) :
    (tallyRow source 0 ts).effort = ((eventsOfRow ts).map Event.weight).sum := by
  induction ts with
  | nil => rfl
  | cons t ts ih =>
    rw [eventsOfRow, List.flatMap_cons, List.map_append, List.sum_append, ← tally_effort source]
    exact congrArg (_ + ·) ih

theorem length_le_weight (l : List Event) : l.length ≤ (l.map Event.weight).sum := by
  induction l with
  | nil => exact Nat.le_refl 0
  | cons e l ih =>
    rw [List.length_cons, List.map_cons, List.sum_cons, Event.weight]
    omega

theorem weight_le_of_depth_le {d : Nat} (l : List Event) (h : ∀ e ∈ l, e.depth ≤ d) :
    (l.map Event.weight).sum ≤ l.length * (1 + d) := by
  induction l with
  | nil => exact Nat.zero_le _
  | cons e l ih =>
    have he := h e List.mem_cons_self
    have hl := ih fun x hx => h x (List.mem_cons_of_mem e hx)
    rw [List.length_cons, List.map_cons, List.sum_cons, Event.weight, Nat.succ_mul]
    omega

theorem isWeighed_of_weighs (h : count.weighs t = true) : isWeighed t.kind = true := by
  cases count with
  | literals depth =>
    rw [weighs, decide_eq_true_eq] at h
    rw [h]
    rfl
  | contents depth => cases h
  | statement depth => exact h

theorem node_of_mem_events (count : Count) (t : Tree) :
    ∀ e ∈ events count t, e.node ∈ t.walk ∧ isWeighed e.node.kind = true := by
  induction count, t using count_induction with
  | h count t ih =>
    intro e he
    rw [events_eq, List.mem_append, List.mem_flatMap] at he
    rcases he with he | ⟨x, hx, he⟩
    · split at he
      · next hw =>
        cases List.mem_singleton.mp he
        exact ⟨t.self_mem_walk, isWeighed_of_weighs hw⟩
      · cases he
    · obtain ⟨hwalk, hweighed⟩ := ih x hx e he
      exact ⟨Tree.child_mem_walk (mem_children_of_mem_next hx) hwalk, hweighed⟩

theorem node_of_mem_eventsOfRow {e : Event} (h : e ∈ eventsOfRow ts) :
    e.node ∈ Tree.walkAll ts ∧ isWeighed e.node.kind = true := by
  obtain ⟨t, ht, he⟩ := List.mem_flatMap.mp h
  obtain ⟨hwalk, hweighed⟩ := node_of_mem_events (.statement 0) t e he
  exact ⟨Tree.mem_walkAll ht hwalk, hweighed⟩

theorem depth_of_mem_events_body (source : ByteArray) (body : Tree) :
    ∀ e ∈ events (.contents 0) body, e.depth ≤ (tally source (.contents 0) body).depth := by
  intro e he
  have hdepth := depth_of_mem_events source (.contents 0) body e he
  rwa [Count.depth, Nat.zero_max] at hdepth

theorem effort_bounds (source : ByteArray) (body : Tree) :
    (events (.contents 0) body).length ≤ (tally source (.contents 0) body).effort ∧
      (tally source (.contents 0) body).effort
        ≤ (events (.contents 0) body).length * (1 + (tally source (.contents 0) body).depth) := by
  rw [tally_effort]
  constructor
  · exact length_le_weight _
  · exact weight_le_of_depth_le _ (depth_of_mem_events_body source body)

/-- The level on which statements are counted enters their effort once for each event and leaves
paths and variables as they are; statements in a row add up and take the greater nesting; and no
event of a function is weighed deeper than its nesting. -/
theorem tally_linear_in_depth (source : ByteArray) :
    (∀ (ts : List Tree) (depth : Nat),
      (tallyRow source depth ts).paths = (tallyRow source 0 ts).paths ∧
      (tallyRow source depth ts).locals = (tallyRow source 0 ts).locals ∧
      (tallyRow source depth ts).effort
        = (tallyRow source 0 ts).effort + depth * (eventsOfRow ts).length ∧
      (tallyRow source 0 ts).effort = ((eventsOfRow ts).map Event.weight).sum ∧
      ∀ e ∈ eventsOfRow ts, e.node ∈ Tree.walkAll ts ∧ isWeighed e.node.kind = true) ∧
    (∀ (ts us : List Tree) (depth : Nat),
      (tallyRow source depth (ts ++ us)).paths
        = (tallyRow source depth ts).paths + (tallyRow source depth us).paths ∧
      (tallyRow source depth (ts ++ us)).effort
        = (tallyRow source depth ts).effort + (tallyRow source depth us).effort ∧
      (tallyRow source depth (ts ++ us)).locals
        = (tallyRow source depth ts).locals + (tallyRow source depth us).locals ∧
      (tallyRow source depth (ts ++ us)).blocks
        = (tallyRow source depth ts).blocks + (tallyRow source depth us).blocks ∧
      (tallyRow source depth (ts ++ us)).depth
        = max (tallyRow source depth ts).depth (tallyRow source depth us).depth) ∧
    ∀ (f body : Tree) (m : Metrics), f.part? .body = some body →
      Metrics.ofFunction? source f = some m →
      m.effort = ((events (.contents 0) body).map Event.weight).sum ∧
      (∀ e ∈ events (.contents 0) body, e.depth ≤ m.depth) ∧
      (events (.contents 0) body).length ≤ m.effort ∧
      m.effort ≤ (events (.contents 0) body).length * (1 + m.depth) := by
  refine ⟨?_, ?_, ?_⟩
  · intro ts depth
    exact ⟨tallyRow_paths source depth ts, tallyRow_locals source depth ts,
      tallyRow_effort source depth ts, tallyRow_weight source ts,
      fun e he => node_of_mem_eventsOfRow he⟩
  · intro ts us depth
    rw [tallyRow_append]
    exact ⟨rfl, rfl, rfl, rfl, rfl⟩
  · intro f body m hbody hm
    rw [Metrics.ofFunction?, hbody] at hm
    cases hm
    obtain ⟨hleast, hmost⟩ := effort_bounds source body
    exact ⟨tally_effort source (.contents 0) body, depth_of_mem_events_body source body, hleast,
      hmost⟩

/-- A body with a condition that starts a call: `if ok { go f() }`. -/
def startingBody : Tree :=
  .node .block (some .body) default [
    .node .ifStatement none default [
      .node .identifier (some .condition) default [],
      .node .block (some .consequence) default [
        .node .goStatement none default [.node .callExpression none default []]]]]

/-- The call is started one level deep, so that the effort is three for two events. -/
theorem tally_linear_in_depth_starting :
    (.node .functionDeclaration none default [startingBody] : Tree).part? .body
        = some startingBody ∧
      Metrics.ofFunction? .empty (.node .functionDeclaration none default [startingBody])
        = some ⟨2, 3, 1, 0, 0, 1, 1⟩ ∧
      (∀ e ∈ events (.contents 0) startingBody, e.depth ≤ 1) ∧
      (events (.contents 0) startingBody).length ≤ 3 ∧
      3 ≤ (events (.contents 0) startingBody).length * (1 + 1) := by
  have hbody : (.node .functionDeclaration none default [startingBody] : Tree).part? .body
      = some startingBody := rfl
  have hm : Metrics.ofFunction? .empty (.node .functionDeclaration none default [startingBody])
      = some ⟨2, 3, 1, 0, 0, 1, 1⟩ := rfl
  obtain ⟨-, -, hfunction⟩ := tally_linear_in_depth .empty
  exact ⟨hbody, hm, (hfunction _ _ _ hbody hm).2⟩

end GoAtlas.Finding
