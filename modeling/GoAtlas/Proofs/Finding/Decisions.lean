import GoAtlas.Proofs.Finding.Events

namespace GoAtlas

namespace Syntax.Tree

variable {t u v : Tree} {stops : Tree → Bool}

mutual
/-- The nodes of a tree without those below a node that stops the walk. -/
def reach (stops : Tree → Bool) : Tree → List Tree
  | .node k f s cs =>
    .node k f s cs :: if stops (.node k f s cs) then [] else reachAll stops cs

def reachAll (stops : Tree → Bool) : List Tree → List Tree
  | [] => []
  | t :: ts => t.reach stops ++ reachAll stops ts
end

theorem reachAll_eq (stops : Tree → Bool) (ts : List Tree) :
    reachAll stops ts = ts.flatMap (reach stops) := by
  induction ts with
  | nil => rfl
  | cons t ts ih => rw [reachAll, ih, List.flatMap_cons]

theorem reach_eq (stops : Tree → Bool) (t : Tree) :
    t.reach stops = t :: if stops t then [] else t.children.flatMap (reach stops) := by
  obtain ⟨k, f, s, cs⟩ := t
  rw [reach, reachAll_eq]
  rfl

theorem self_mem_reach (stops : Tree → Bool) (t : Tree) : t ∈ t.reach stops := by
  rw [reach_eq]
  exact List.mem_cons_self

theorem mem_reach_trans (hu : u ∈ t.reach stops) (hv : v ∈ u.reach stops) : v ∈ t.reach stops := by
  induction t using by_children with
  | h t ih =>
    rw [reach_eq] at hu
    rcases List.mem_cons.mp hu with rfl | hu
    · exact hv
    · split at hu
      · cases hu
      · next hstops =>
        obtain ⟨c, hc, hu⟩ := List.mem_flatMap.mp hu
        rw [reach_eq, if_neg hstops]
        exact List.mem_cons_of_mem _ (List.mem_flatMap.mpr ⟨c, hc, ih c hc hu⟩)

end Syntax.Tree

namespace Finding

open Syntax Tree Finding.Count

variable {C : Ground} {source : ByteArray} {t u c : Tree} {stops closes : Tree → Bool}

/-- The paths a node adds: a condition and its plain `else`, a loop, the cases of a switch and its
missing default, the cases of a select statement. -/
def decisions (t : Tree) : Nat :=
  match t.kind with
  | .ifStatement => 1 + if (t.part? .alternative).any (·.kind = .block) then 1 else 0
  | .forStatement => 1
  | .expressionSwitchStatement | .typeSwitchStatement =>
    (t.clauses.filter (·.kind != .defaultCase)).length
      + if t.clauses.any (·.kind = .defaultCase) then 0 else 1
  | .selectStatement => t.clauses.length
  | _ => 0

def decisionsUpTo (stops : Tree → Bool) (t : Tree) : Nat :=
  ((t.reach stops).map decisions).sum

theorem decisionsUpTo_eq (stops : Tree → Bool) (t : Tree) :
    decisionsUpTo stops t = decisions t
      + if stops t then 0 else (t.children.map (decisionsUpTo stops)).sum := by
  rw [decisionsUpTo, reach_eq, List.map_cons, List.sum_cons]
  congr 1
  split
  · rfl
  · rw [List.map_flatMap, List.flatMap_def, List.sum_flatten, List.map_map]
    rfl

theorem decisionsUpTo_eq_zero_iff :
    decisionsUpTo stops t = 0 ↔ ∀ u ∈ t.reach stops, decisions u = 0 := by
  rw [decisionsUpTo, List.sum_eq_zero_iff, List.forall_mem_map]

/-- Whether a label is followed by a comment. -/
def isMuted (t : Tree) : Bool :=
  t.kind = .labeledStatement && (labeled? t.children).any (·.isComment)

def isLiteral (t : Tree) : Bool :=
  t.kind = .funcLiteral

def isClosed (t : Tree) : Bool :=
  isLiteral t || isMuted t

theorem decisions_of_isMuted (h : isMuted t = true) : decisions t = 0 := by
  simp only [isMuted, Bool.and_eq_true, decide_eq_true_eq] at h
  simp only [decisions, h.1]

def Empty (stops closes : Tree → Bool) (t : Tree) : Prop :=
  ∀ l ∈ t.reach stops, closes l = true → ∀ u ∈ l.reach stops, decisions u = 0

theorem empty_iff_of_closes (hc : closes t = true) :
    Empty stops closes t ↔ decisionsUpTo stops t = 0 := by
  rw [decisionsUpTo_eq_zero_iff]
  constructor
  · intro h
    exact h t (self_mem_reach stops t) hc
  · intro h l hl _ u hu
    exact h u (mem_reach_trans hl hu)

theorem empty_iff_of_not (hs : stops t = false) (hc : closes t = false) :
    Empty stops closes t ↔ ∀ c ∈ t.children, Empty stops closes c := by
  constructor
  · intro h c hmem l hl
    apply h
    rw [reach_eq, hs]
    exact List.mem_cons_of_mem _ (List.mem_flatMap.mpr ⟨c, hmem, hl⟩)
  · intro h l hl hcl
    rw [reach_eq, hs] at hl
    rcases List.mem_cons.mp hl with rfl | hl
    · rw [hc] at hcl
      cases hcl
    · obtain ⟨c, hmem, hl⟩ := List.mem_flatMap.mp hl
      exact h c hmem l hl hcl

theorem sum_eq_iff {α : Type} {f g : α → Nat} {l : List α} (h : ∀ x ∈ l, f x ≤ g x) :
    (l.map f).sum = (l.map g).sum ↔ ∀ x ∈ l, f x = g x := by
  induction l with
  | nil => simp
  | cons x l ih =>
    have hx := h x List.mem_cons_self
    have hl : ∀ y ∈ l, f y ≤ g y := fun y hy => h y (List.mem_cons_of_mem x hy)
    have hsum : (l.map f).sum ≤ (l.map g).sum := List.sum_le_sum hl
    rw [List.map_cons, List.sum_cons, List.map_cons, List.sum_cons, List.forall_mem_cons, ← ih hl]
    omega

/-- Closing off nodes that add nothing themselves takes decisions away, and none exactly when there
are none below these nodes. -/
theorem decisionsUpTo_close (stops : Tree → Bool)
    (hcloses : ∀ t, closes t = true → decisions t = 0) (t : Tree) :
    decisionsUpTo (fun t => stops t || closes t) t ≤ decisionsUpTo stops t ∧
      (decisionsUpTo (fun t => stops t || closes t) t = decisionsUpTo stops t
        ↔ Empty stops closes t) := by
  induction t using by_children with
  | h t ih =>
    rw [decisionsUpTo_eq]
    cases hc : closes t with
    | true =>
      rw [Bool.or_true, if_pos rfl, hcloses t hc, Nat.add_zero, empty_iff_of_closes hc]
      exact ⟨Nat.zero_le _, eq_comm⟩
    | false =>
      rw [decisionsUpTo_eq stops, Bool.or_false]
      cases hs : stops t with
      | true =>
        simp only [if_true, Nat.add_zero, Nat.le_refl, true_and, true_iff]
        intro l hl hcl
        rw [reach_eq, hs, if_pos rfl, List.mem_singleton] at hl
        rw [hl, hc] at hcl
        cases hcl
      | false =>
        have hle : ∀ c ∈ t.children, _ := fun c hmem => (ih c hmem).1
        rw [empty_iff_of_not hs hc, Nat.add_le_add_iff_left, Nat.add_left_cancel_iff]
        refine ⟨List.sum_le_sum hle, (sum_eq_iff hle).trans ?_⟩
        exact forall₂_congr fun c hmem => (ih c hmem).2

def isQuiet : Kind → Bool
  | .sourceFile | .functionDeclaration | .methodDeclaration | .block | .statementList
  | .labeledStatement | .ifStatement | .forStatement | .expressionSwitchStatement
  | .typeSwitchStatement | .selectStatement | .expressionCase | .typeCase | .communicationCase
  | .defaultCase => false
  | _ => true

def loud : List Kind :=
  [.sourceFile, .functionDeclaration, .methodDeclaration, .block, .statementList, .labeledStatement,
    .ifStatement, .forStatement, .expressionSwitchStatement, .typeSwitchStatement, .selectStatement,
    .expressionCase, .typeCase, .communicationCase, .defaultCase]

section
variable {k c : Kind} {f : Option Field}

theorem isQuiet_of_isExpression (h : c.isExpression = true) : isQuiet c = true := by
  cases c <;> first | rfl | cases h

theorem isQuiet_of_isFiller (h : c.isFiller = true) : isQuiet c = true := by
  cases c <;> first | rfl | cases h

theorem mem_loud (h : isQuiet c = false) : c ∈ loud := by
  cases c <;> first | (cases h; done) | simp [loud]

theorem isQuiet_parts (hk : isQuiet k = true) (hl : k ≠ .funcLiteral) :
    (k.parts.all fun q => loud.all fun c => !q.2 c || isQuiet c) = true := by
  cases k <;> first | rfl | (cases hk; done) | exact (hl rfl).elim

theorem isQuiet_of_admits (hk : isQuiet k = true) (hl : k ≠ .funcLiteral) (h : k.admits f c) :
    isQuiet c = true :=
  Kind.holds_of_admits (P := fun _ => isQuiet) loud (fun _ _ => mem_loud)
    (fun _ => isQuiet_of_isFiller) (isQuiet_parts hk hl) h

end

theorem decisions_of_isQuiet (h : isQuiet t.kind = true) : decisions t = 0 := by
  unfold decisions
  split <;> simp_all [isQuiet]

theorem decisionsUpTo_of_isQuiet (hstops : ∀ u, isLiteral u = true → stops u = true)
    (h : t.Laid C) (hq : isQuiet t.kind = true) : decisionsUpTo stops t = 0 := by
  induction t using by_children with
  | h t ih =>
    rw [decisionsUpTo_eq, decisions_of_isQuiet hq, Nat.zero_add]
    split
    · rfl
    · next hs =>
      have hl : t.kind ≠ .funcLiteral := fun hk => hs (hstops t (decide_eq_true hk))
      rw [List.sum_eq_zero_iff, List.forall_mem_map]
      intro c hc
      obtain ⟨-, -, hlaid, hadmits⟩ := h.row.mem hc
      exact ih c hc hlaid (isQuiet_of_admits hq hl hadmits)

def pathsOf (source : ByteArray) (f : Tree → Option Count) (c : Tree) : Nat :=
  ((f c).map fun count => (tally source count c).paths).getD 0

theorem paths_select (source : ByteArray) (f : Tree → Option Count) (ts : List Tree) :
    (((select f ts).map fun x => tally source x.1 x.2).sum).paths
      = (ts.map (pathsOf source f)).sum := by
  induction ts with
  | nil => rfl
  | cons t ts ih =>
    rw [select, List.filterMap_cons, List.map_cons, List.sum_cons, ← ih, pathsOf]
    cases f t with
    | none => exact (Nat.zero_add _).symm
    | some count => rfl

theorem paths_literals (source : ByteArray) (d : Nat) (t : Tree) :
    (tally source (.literals d) t).paths = 0 := by
  induction t using by_children with
  | h t ih =>
    rw [tally_eq, Tally.paths_add]
    simp only [own, next]
    split
    · rfl
    · rw [paths_select, Tally.paths_zero, Nat.zero_add, List.sum_eq_zero_iff, List.forall_mem_map]
      intro c hc
      rw [pathsOf, ofLiterals]
      split
      · exact ih c hc
      · rfl

theorem pathsOf_ofLiterals (source : ByteArray) (d : Nat) (c : Tree) :
    pathsOf source (ofLiterals d) c = 0 := by
  rw [pathsOf, ofLiterals]
  split
  · exact paths_literals source d c
  · rfl

theorem paths_of_isQuiet (source : ByteArray) (d : Nat) (h : isQuiet t.kind = true) :
    (tally source (.statement d) t).paths = 0 := by
  have hliterals : (t.children.map (pathsOf source (ofLiterals d))).sum = 0 := by
    rw [List.sum_eq_zero_iff, List.forall_mem_map]
    intro c _
    exact pathsOf_ofLiterals source d c
  rw [tally_eq, Tally.paths_add]
  simp only [own, next]
  split <;> simp_all [isQuiet, paths_select, Tally.decision]

theorem elsePaths_eq (h : t.Laid C) (hk : t.kind = .ifStatement) :
    elsePaths t = if (t.part? .alternative).any (·.kind = .block) then 1 else 0 := by
  rw [elsePaths]
  cases ha : t.part? .alternative with
  | none => rfl
  | some a =>
    obtain ⟨-, hadmits⟩ := h.part? ha
    rw [hk] at hadmits
    have hkind := Kind.of_admits_one hadmits rfl
    simp only [Kind.among, List.contains_cons, List.contains_nil, Bool.or_false, Bool.or_eq_true,
      beq_iff_eq] at hkind
    rcases hkind with hkind | hkind <;> simp [hkind]

theorem switchPaths_eq (t : Tree) :
    switchPaths t = (t.clauses.filter (·.kind != .defaultCase)).length
      + if t.clauses.any (·.kind = .defaultCase) then 0 else 1 := by
  have hall : (t.clauses.filter (·.kind != .defaultCase)).length = t.clauses.length
      ↔ ¬ t.clauses.any (·.kind = .defaultCase) = true := by
    simp [List.length_filter_eq_length_iff]
  simp only [switchPaths, hall, ite_not]

theorem own_paths (source : ByteArray) (d : Nat) (h : t.Laid C) :
    (own source t (.statement d)).paths = decisions t := by
  obtain ⟨k, f, s, cs⟩ := t
  cases k
  case ifStatement => exact congrArg (1 + ·) (elsePaths_eq h rfl)
  case expressionSwitchStatement => exact switchPaths_eq _
  case typeSwitchStatement => exact switchPaths_eq _
  all_goals rfl

def holdsStatements : Kind → Bool
  | .block | .statementList | .expressionCase | .typeCase | .communicationCase | .defaultCase => true
  | _ => false

/-- The paths of a node are the decisions that are not closed off, when it is counted as a statement
and when what it holds is counted. -/
structure Counted (source : ByteArray) (t : Tree) : Prop where
  statement : t.kind.isStatement = true → ∀ d,
    (tally source (.statement d) t).paths = decisionsUpTo isClosed t
  contents : holdsStatements t.kind = true → ∀ d,
    (tally source (.contents d) t).paths = decisionsUpTo isClosed t

theorem decisionsUpTo_closed_of_isQuiet (h : t.Laid C) (hq : isQuiet t.kind = true) :
    decisionsUpTo isClosed t = 0 :=
  decisionsUpTo_of_isQuiet (fun u hu => by simp [isClosed, hu]) h hq

theorem Counted.of_isQuiet (h : t.Laid C) (hq : isQuiet t.kind = true) : Counted source t where
  statement _ d := by rw [paths_of_isQuiet source d hq, decisionsUpTo_closed_of_isQuiet h hq]
  contents hk := by
    exfalso
    revert hq hk
    cases t.kind <;> simp [isQuiet, holdsStatements]

section
variable (h : t.Laid C) (ih : ∀ c ∈ t.children, Counted source c)
include h

theorem paths_statement (hclosed : isClosed t = false) {d : Nat} (hnext :
    (((next t (.statement d)).map fun x => tally source x.1 x.2).sum).paths
      = (t.children.map (decisionsUpTo isClosed)).sum) :
    (tally source (.statement d) t).paths = decisionsUpTo isClosed t := by
  rw [tally_eq, Tally.paths_add, own_paths source d h, hnext, decisionsUpTo_eq, hclosed]
  rfl

end

def isHeld (f : Option Field) (k : Kind) : Bool :=
  (f = none && (k.isStatement || k = .statementList)) || isQuiet k

theorem isHeld_parts {k : Kind} (hk : holdsStatements k = true) :
    (k.parts.all fun q => loud.all fun c => !q.2 c || isHeld q.1 c) = true := by
  cases k <;> first | rfl | cases hk

theorem admits_of_holdsStatements (h : t.Laid C) (hk : holdsStatements t.kind = true)
    (hc : c ∈ t.children) :
    (c.field = none ∧ (c.kind.isStatement = true ∨ c.kind = .statementList))
      ∨ isQuiet c.kind = true := by
  obtain ⟨-, -, -, hadmits⟩ := h.row.mem hc
  have hheld := Kind.holds_of_admits (P := isHeld) loud
    (fun _ _ hc => mem_loud (Bool.or_eq_false_iff.mp hc).2)
    (fun _ hc => Bool.or_eq_true_iff.mpr (.inr (isQuiet_of_isFiller hc))) (isHeld_parts hk) hadmits
  simpa [isHeld] using hheld

theorem pathsOf_of_isQuiet (d : Nat) (h : c.Laid C) (hq : isQuiet c.kind = true) :
    pathsOf source (ofStatements d) c = decisionsUpTo isClosed c := by
  rw [decisionsUpTo_closed_of_isQuiet h hq, pathsOf, ofStatements]
  split
  · split
    · next hk =>
      rw [hk] at hq
      cases hq
    · exact paths_of_isQuiet source d hq
  · rfl

theorem isNamed_of_isStatement {k : Kind} (h : k.isStatement = true) :
    k.isNamed = true ∧ k ≠ .statementList := by
  cases k <;> first | (cases h; done) | exact ⟨rfl, by simp⟩

theorem isClauseHead_of_field (h : c.field = none) : c.isClauseHead = false := by
  simp [Tree.isClauseHead, h]

theorem pathsOf_ofStatements (d : Nat) (h : c.Laid C) (hcount : Counted source c)
    (hkind : (c.field = none ∧ (c.kind.isStatement = true ∨ c.kind = .statementList))
      ∨ isQuiet c.kind = true) :
    pathsOf source (ofStatements d) c = decisionsUpTo isClosed c := by
  rcases hkind with ⟨hf, hs | hl⟩ | hq
  · obtain ⟨hnamed, hlist⟩ := isNamed_of_isStatement hs
    rw [pathsOf, ofStatements, hnamed, isClauseHead_of_field hf, if_neg hlist]
    exact hcount.statement hs d
  · rw [pathsOf, ofStatements, isClauseHead_of_field hf, hl]
    exact hcount.contents (hl ▸ rfl) d
  · exact pathsOf_of_isQuiet d h hq

theorem paths_holding (d : Nat) (h : t.Laid C) (ih : ∀ c ∈ t.children, Counted source c)
    (hk : holdsStatements t.kind = true) :
    (((select (ofStatements d) t.children).map fun x => tally source x.1 x.2).sum).paths
      = (t.children.map (decisionsUpTo isClosed)).sum := by
  rw [paths_select]
  congr 1
  apply List.map_congr_left
  intro c hc
  obtain ⟨-, -, hlaid, -⟩ := h.row.mem hc
  exact pathsOf_ofStatements d hlaid (ih c hc) (admits_of_holdsStatements h hk hc)

theorem not_closed_of_kind (hl : t.kind ≠ .funcLiteral) (hm : t.kind ≠ .labeledStatement) :
    isClosed t = false := by
  simp [isClosed, isLiteral, isMuted, hl, hm]

theorem decisions_of_holdsStatements (h : holdsStatements t.kind = true) : decisions t = 0 := by
  unfold decisions
  split <;> simp_all [holdsStatements]

theorem paths_contents (d : Nat) (h : t.Laid C) (ih : ∀ c ∈ t.children, Counted source c)
    (hk : holdsStatements t.kind = true) :
    (tally source (.contents d) t).paths = decisionsUpTo isClosed t := by
  have hclosed : isClosed t = false := by
    apply not_closed_of_kind <;> intro he <;> rw [he] at hk <;> cases hk
  rw [tally_eq, Tally.paths_add, decisionsUpTo_eq, hclosed, decisions_of_holdsStatements hk]
  exact congrArg (0 + ·) (paths_holding d h ih hk)

theorem pathsOf_inPart (source : ByteArray) (f : Field) (count : Count) (c : Tree) :
    pathsOf source (inPart f count) c
      = if c.field = some f then (tally source count c).paths else 0 := by
  rw [pathsOf, inPart]
  split <;> rfl

theorem pathsOf_ofAlternative (source : ByteArray) (d : Nat) (c : Tree) :
    pathsOf source (ofAlternative d) c = if c.field = some .alternative then
      (tally source (.statement (if c.kind = .ifStatement then d else d + 1)) c).paths else 0 := by
  rw [pathsOf, ofAlternative]
  split <;> rfl

theorem pathsOf_ofClauses (source : ByteArray) (d : Nat) (c : Tree) :
    pathsOf source (ofClauses d) c
      = if c.isClause then (tally source (.contents d) c).paths else 0 := by
  rw [pathsOf, ofClauses]
  split <;> rfl

theorem paths_if (d : Nat) (h : t.Laid C) (ih : ∀ c ∈ t.children, Counted source c)
    (hk : t.kind = .ifStatement) :
    (tally source (.statement d) t).paths = decisionsUpTo isClosed t := by
  apply paths_statement h (not_closed_of_kind (by simp [hk]) (by simp [hk]))
  simp only [next, hk, List.map_append, List.sum_append, Tally.paths_add, paths_select,
    ← List.sum_map_add]
  congr 1
  apply List.map_congr_left
  intro c hc
  obtain ⟨-, -, hlaid, hadmits⟩ := h.row.mem hc
  have hcount := ih c hc
  simp only [pathsOf_inPart, paths_literals, pathsOf_ofAlternative]
  rw [hk] at hadmits
  obtain ⟨hf, hq⟩ | ⟨q, hmem, hf, hq⟩ := Kind.cases_of_admits hadmits
  · simp [hf, decisionsUpTo_closed_of_isQuiet hlaid (isQuiet_of_isFiller hq)]
  rcases List.mem_cons.mp hmem with rfl | hmem
  · simp [← hf, hcount.statement (Kind.isStatement_of_isSimple hq)]
  rcases List.mem_cons.mp hmem with rfl | hmem
  · simp [← hf, decisionsUpTo_closed_of_isQuiet hlaid (isQuiet_of_isExpression hq)]
  rcases List.mem_cons.mp hmem with rfl | hmem
  · simp [← hf, hcount.statement (Kind.of_among hq rfl)]
  · cases List.mem_singleton.mp hmem
    simp [← hf, hcount.statement (Kind.of_among hq rfl)]

theorem paths_for (d : Nat) (h : t.Laid C) (ih : ∀ c ∈ t.children, Counted source c)
    (hk : t.kind = .forStatement) :
    (tally source (.statement d) t).paths = decisionsUpTo isClosed t := by
  apply paths_statement h (not_closed_of_kind (by simp [hk]) (by simp [hk]))
  simp only [next, hk, paths_select]
  congr 1
  apply List.map_congr_left
  intro c hc
  obtain ⟨-, -, hlaid, hadmits⟩ := h.row.mem hc
  have hcount := ih c hc
  rw [pathsOf_inPart]
  rw [hk] at hadmits
  obtain ⟨hf, hq⟩ | ⟨q, hmem, hf, hq⟩ := Kind.cases_of_admits hadmits
  · simp [hf, decisionsUpTo_closed_of_isQuiet hlaid (isQuiet_of_isFiller hq)]
  rcases List.mem_cons.mp hmem with rfl | hmem
  · simp [← hf, decisionsUpTo_closed_of_isQuiet hlaid (Kind.of_among hq rfl)]
  rcases List.mem_cons.mp hmem with rfl | hmem
  · simp [← hf, decisionsUpTo_closed_of_isQuiet hlaid (isQuiet_of_isExpression hq)]
  · cases List.mem_singleton.mp hmem
    simp [← hf, hcount.statement (Kind.of_among hq rfl)]

def isClauseKind : Kind → Bool
  | .expressionCase | .typeCase | .defaultCase | .communicationCase => true
  | _ => false

theorem isClause_eq (t : Tree) : t.isClause = isClauseKind t.kind := by
  obtain ⟨k, f, s, cs⟩ := t
  cases k <;> rfl

theorem holdsStatements_of_isClause {k : Kind} (h : isClauseKind k = true) :
    holdsStatements k = true := by
  cases k <;> first | rfl | cases h

theorem isClauseKind_of_isQuiet {k : Kind} (h : isQuiet k = true) : isClauseKind k = false := by
  cases k <;> first | rfl | cases h

theorem switch_parts {k : Kind} (hk : k = .expressionSwitchStatement ∨ k = .typeSwitchStatement
    ∨ k = .selectStatement) :
    (k.parts.all fun q => loud.all fun c => !q.2 c || (isClauseKind c || isQuiet c)) = true := by
  rcases hk with rfl | rfl | rfl <;> rfl

theorem admits_of_switch (h : t.Laid C) (hk : t.kind = .expressionSwitchStatement
    ∨ t.kind = .typeSwitchStatement ∨ t.kind = .selectStatement) (hc : c ∈ t.children) :
    isClauseKind c.kind = true ∨ isQuiet c.kind = true := by
  obtain ⟨-, -, -, hadmits⟩ := h.row.mem hc
  have hclause := Kind.holds_of_admits (P := fun _ c => isClauseKind c || isQuiet c) loud
    (fun _ _ hc => mem_loud (Bool.or_eq_false_iff.mp hc).2)
    (fun _ hc => Bool.or_eq_true_iff.mpr (.inr (isQuiet_of_isFiller hc))) (switch_parts hk) hadmits
  exact Bool.or_eq_true_iff.mp hclause

theorem paths_switch (d : Nat) (h : t.Laid C) (ih : ∀ c ∈ t.children, Counted source c)
    (hk : t.kind = .expressionSwitchStatement ∨ t.kind = .typeSwitchStatement
      ∨ t.kind = .selectStatement) :
    (tally source (.statement d) t).paths = decisionsUpTo isClosed t := by
  have hnext : next t (.statement d) = select (ofClauses (d + 1)) t.children := by
    rcases hk with hk | hk | hk <;> simp only [next, hk]
  have hclosed : isClosed t = false := by
    apply not_closed_of_kind <;> intro he <;> simp [he] at hk
  apply paths_statement h hclosed
  rw [hnext, paths_select]
  congr 1
  apply List.map_congr_left
  intro c hc
  obtain ⟨-, -, hlaid, -⟩ := h.row.mem hc
  rw [pathsOf_ofClauses, isClause_eq]
  rcases admits_of_switch h hk hc with hclause | hq
  · rw [if_pos hclause]
    exact (ih c hc).contents (holdsStatements_of_isClause hclause) (d + 1)
  · rw [isClauseKind_of_isQuiet hq, decisionsUpTo_closed_of_isQuiet hlaid hq]
    rfl

theorem admits_of_label (h : t.Laid C) (hk : t.kind = .labeledStatement) (hc : c ∈ t.children) :
    c.kind.isStatement = true ∨ c.kind = .labelName ∨ c.kind.isFiller = true := by
  obtain ⟨-, -, -, hadmits⟩ := h.row.mem hc
  rw [hk] at hadmits
  obtain ⟨-, hfiller⟩ | ⟨q, hmem, -, hkind⟩ := Kind.cases_of_admits hadmits
  · exact .inr (.inr hfiller)
  rcases List.mem_cons.mp hmem with rfl | hmem
  · exact .inr (.inl (by simpa [Kind.among] using hkind))
  · cases List.mem_singleton.mp hmem
    exact .inl hkind

theorem decisionsUpTo_of_not_statement (h : t.Laid C) (hk : t.kind = .labeledStatement)
    (hc : c ∈ t.children) (hs : c.kind.isStatement = false) : decisionsUpTo isClosed c = 0 := by
  obtain ⟨-, -, hlaid, -⟩ := h.row.mem hc
  apply decisionsUpTo_closed_of_isQuiet hlaid
  rcases admits_of_label h hk hc with hs' | hlabel | hfiller
  · rw [hs] at hs'
    cases hs'
  · rw [hlabel]
    rfl
  · exact isQuiet_of_isFiller hfiller

theorem sum_of_label (h : t.Laid C) (hk : t.kind = .labeledStatement) (hu : u ∈ t.children)
    (hs : u.kind.isStatement = true) :
    (t.children.map (decisionsUpTo isClosed)).sum = decisionsUpTo isClosed u := by
  obtain ⟨before, behind, hsplit⟩ := List.append_of_mem hu
  have hsingle := h.signed.single hk
  rw [hsplit, List.filter_append, List.filter_cons, if_pos hs, List.length_append,
    List.length_cons] at hsingle
  have hnone : ∀ c ∈ before ++ behind, c.kind.isStatement = false := by
    intro c hc
    by_contra hstatement
    have hpos : 0 < ((before ++ behind).filter (·.kind.isStatement)).length :=
      List.length_pos_of_mem (List.mem_filter.mpr ⟨hc, by simpa using hstatement⟩)
    rw [List.filter_append, List.length_append] at hpos
    omega
  have hzero : ∀ l : List Tree, l ⊆ before ++ behind →
      (l.map (decisionsUpTo isClosed)).sum = 0 := by
    intro l hl
    rw [List.sum_eq_zero_iff, List.forall_mem_map]
    intro c hc
    apply decisionsUpTo_of_not_statement h hk ?_ (hnone c (hl hc))
    have hmem := List.mem_append.mp (hl hc)
    rw [hsplit, List.mem_append, List.mem_cons]
    exact hmem.imp_right .inr
  rw [hsplit, List.map_append, List.sum_append, List.map_cons, List.sum_cons,
    hzero before (List.subset_append_left _ _), hzero behind (List.subset_append_right _ _)]
  omega

theorem isNamed_of_isToken {k : Kind} (h : k.isToken = true) : k.isNamed = false := by
  cases k <;> first | rfl | cases h

theorem statement_of_labeled (h : t.Laid C) (hk : t.kind = .labeledStatement)
    (hl : labeled? t.children = some u) (hcomment : u.isComment = false) :
    u.kind.isStatement = true := by
  obtain ⟨hnamed, hlabel⟩ : u.kind.isNamed = true ∧ u.kind ≠ .labelName := by
    simpa using List.find?_some hl
  rcases admits_of_label h hk (List.mem_of_find?_eq_some hl) with hs | he | hfiller
  · exact hs
  · exact (hlabel he).elim
  · simp only [Kind.isFiller, Bool.or_eq_true, decide_eq_true_eq] at hfiller
    rcases hfiller with htoken | he
    · rw [isNamed_of_isToken htoken] at hnamed
      cases hnamed
    · simp [Tree.isComment, he] at hcomment

theorem not_statement_of_labeled_none (hl : labeled? t.children = none) (hc : c ∈ t.children) :
    c.kind.isStatement = false := by
  by_contra hs
  have hs : c.kind.isStatement = true := by simpa using hs
  have hnot := List.find?_eq_none.mp hl c hc
  rw [(isNamed_of_isStatement hs).1, Bool.true_and, bne_iff_ne, not_not] at hnot
  rw [hnot] at hs
  cases hs

theorem paths_label (d : Nat) (h : t.Laid C) (ih : ∀ c ∈ t.children, Counted source c)
    (hk : t.kind = .labeledStatement) :
    (tally source (.statement d) t).paths = decisionsUpTo isClosed t := by
  have hnext : next t (.statement d) = (labeled? t.children).toList.map (.statement d, ·) := by
    simp only [next, hk]
  cases hl : labeled? t.children with
  | none =>
    apply paths_statement h (by simp [isClosed, isLiteral, isMuted, hk, hl])
    rw [hnext, hl, eq_comm]
    change _ = 0
    rw [List.sum_eq_zero_iff, List.forall_mem_map]
    intro c hc
    exact decisionsUpTo_of_not_statement h hk hc (not_statement_of_labeled_none hl hc)
  | some u =>
    have hsum : (((next t (.statement d)).map fun x => tally source x.1 x.2).sum).paths
        = (tally source (.statement d) u).paths := by
      rw [hnext, hl]
      rfl
    cases hcomment : u.isComment with
    | true =>
      have hquiet : isQuiet u.kind = true := by
        rw [Tree.isComment, decide_eq_true_eq] at hcomment
        rw [hcomment]
        rfl
      have hclosed : isClosed t = true := by simp [isClosed, isMuted, hk, hl, hcomment]
      rw [tally_eq, Tally.paths_add, own_paths source d h, hsum, paths_of_isQuiet source d hquiet,
        decisionsUpTo_eq, hclosed]
      rfl
    | false =>
      have hu := List.mem_of_find?_eq_some hl
      have hs := statement_of_labeled h hk hl hcomment
      apply paths_statement h (by simp [isClosed, isLiteral, isMuted, hk, hl, hcomment])
      rw [hsum, sum_of_label h hk hu hs]
      exact (ih u hu).statement hs d

theorem statement_cases {k : Kind} (h : k.isStatement = true) :
    k = .ifStatement ∨ k = .forStatement ∨ (k = .expressionSwitchStatement
      ∨ k = .typeSwitchStatement ∨ k = .selectStatement) ∨ k = .block ∨ k = .labeledStatement
      ∨ isQuiet k = true := by
  cases k <;> first | (cases h; done) | simp [isQuiet]

theorem counted_of_laid (source : ByteArray) (h : t.Laid C) : Counted source t := by
  induction t using by_children with
  | h t hchildren =>
    have ih : ∀ c ∈ t.children, Counted source c :=
      fun c hc => hchildren c hc (h.row.mem hc).2.2.1
    constructor
    · intro hs d
      rcases statement_cases hs with hk | hk | hk | hk | hk | hq
      · exact paths_if d h ih hk
      · exact paths_for d h ih hk
      · exact paths_switch d h ih hk
      · apply paths_statement h (not_closed_of_kind (by simp [hk]) (by simp [hk]))
        simp only [next, hk]
        exact paths_holding d h ih (hk ▸ rfl)
      · exact paths_label d h ih hk
      · exact (Counted.of_isQuiet h hq).statement hs d
    · intro hk d
      exact paths_contents d h ih hk

theorem body_of_function {b : Tree} (h : t.Laid C) (hk : t.kind.isFunction = true)
    (hb : t.part? .body = some b) : b.kind = .block ∧ b.Laid C := by
  obtain ⟨hlaid, hadmits⟩ := h.part? hb
  refine ⟨?_, hlaid⟩
  cases hkind : t.kind <;> rw [hkind] at hk hadmits
  case functionDeclaration => exact Kind.eq_of_admits hadmits rfl
  case methodDeclaration => exact Kind.eq_of_admits hadmits rfl
  all_goals cases hk

theorem laid_of_function {root : Tree} (h : parse? source = some root) (ht : t ∈ root.walk)
    (hk : t.kind.isFunction = true) : t.Laid {} := by
  apply (parse?_parsed h).laid ht
  intro hroot
  rw [hroot] at hk
  cases hk

/-- The paths of a function with a body are one more than the decisions in it, without those in
function literals and those behind a label that a comment follows. They are all the decisions outside
of function literals exactly when none of these stands behind such a label. -/
theorem paths_eq_decisions {root body : Tree} (hroot : parse? source = some root)
    (ht : t ∈ root.walk) (hk : t.kind.isFunction = true) (hb : t.part? .body = some body) :
    ∃ m, Metrics.ofFunction? source t = some m ∧
      m.paths = 1 + ((body.reach fun u => isLiteral u || isMuted u).map decisions).sum ∧
      (m.paths = 1 + ((body.reach isLiteral).map decisions).sum ↔
        ∀ l ∈ body.reach isLiteral, isMuted l = true → ∀ u ∈ l.reach isLiteral, decisions u = 0) := by
  obtain ⟨hkind, hlaid⟩ := body_of_function (laid_of_function hroot ht hk) hk hb
  have hpaths := (counted_of_laid source hlaid).contents (hkind ▸ rfl) 0
  obtain ⟨-, hall⟩ := decisionsUpTo_close isLiteral (fun u hu => decisions_of_isMuted hu) body
  refine ⟨_, by rw [Metrics.ofFunction?, hb]; rfl, congrArg (1 + ·) hpaths, ?_⟩
  dsimp only
  rw [hpaths, Nat.add_left_cancel_iff]
  exact hall

/-- A condition behind a label and a comment. -/
def remarked : ByteArray :=
  "package p\nfunc f() \x7b\nL: // why\n\tif x \x7b\n\t\x7d\n\x7d\n".toUTF8

/-- The condition is not counted: the function has one path instead of two. -/
theorem paths_eq_decisions_remarked :
    ∃ root t body m, parse? remarked = some root ∧ t ∈ root.walk ∧ t.kind.isFunction = true ∧
      t.part? .body = some body ∧ Metrics.ofFunction? remarked t = some m ∧ m.paths = 1 ∧
      1 + ((body.reach isLiteral).map decisions).sum = 2 ∧
      ¬ ∀ l ∈ body.reach isLiteral, isMuted l = true →
        ∀ u ∈ l.reach isLiteral, decisions u = 0 := by
  obtain ⟨root, hroot, t, hwalk, hk, body, hb, hcounted, hdecisions⟩ :
      ∃ root ∈ parse? remarked, ∃ t ∈ root.walk, t.kind.isFunction = true ∧
        ∃ body ∈ t.part? .body,
          ((body.reach fun u => isLiteral u || isMuted u).map decisions).sum = 0 ∧
          ((body.reach isLiteral).map decisions).sum = 1 := by
    decide +kernel
  obtain ⟨m, hm, hpaths, hall⟩ := paths_eq_decisions hroot hwalk hk hb
  rw [hcounted] at hpaths
  rw [hpaths, hdecisions] at hall
  exact ⟨root, t, body, m, hroot, hwalk, hk, hb, hm, hpaths, by rw [hdecisions],
    fun hmuted => absurd (hall.mpr hmuted) (by decide)⟩

end Finding

end GoAtlas
