import GoAtlas.Finding.Place
import GoAtlas.Syntax.Statement

namespace GoAtlas.Finding

open Syntax

/-- A conditional statement, reduced to its branches: the lines of the first one, the conditional
statements directly in it, and what follows `else`. -/
inductive Conditional where
  | bare (lines : Nat) (inner : List Conditional)
  | elseIf (lines : Nat) (inner : List Conditional) (next : Conditional)
  | elseBlock (lines : Nat) (inner : List Conditional) (elseLines : Nat) (returns : Bool)
      (elseInner : List Conditional)
  deriving Repr, Inhabited

namespace Conditional

/-- The lines a node spans. -/
def lineSpan (t : Tree) : Nat :=
  t.span.last.row - t.span.first.row + 1

mutual
/-- The conditional statement a node stands for. -/
def ofTree : Tree → Conditional
  | .node k f s cs =>
    let t : Tree := .node k f s cs
    let lines := ((t.part? .consequence).map lineSpan).getD 0
    match t.part? .alternative with
    | none => .bare lines (inPart .consequence cs)
    | some a =>
      if a.kind = .ifStatement then
        match nextIn cs with
        | some next => .elseIf lines (inPart .consequence cs) next
        | none => .bare lines (inPart .consequence cs)
      else
        .elseBlock lines (inPart .consequence cs) (lineSpan a)
          (a.blockStatements.any (·.kind = .returnStatement)) (inPart .alternative cs)

/-- What the part after `else` stands for. -/
def nextIn : List Tree → Option Conditional
  | [] => none
  | t :: ts => if t.field = some .alternative then some (ofTree t) else nextIn ts

/-- The conditional statements of the block in a part. -/
def inPart (f : Field) : List Tree → List Conditional
  | [] => []
  | .node _ field _ cs :: ts =>
    if field = some f then among cs else inPart f ts

/-- The conditional statements among the children of a block. -/
def among : List Tree → List Conditional
  | [] => []
  | .node k f s cs :: ts =>
    (if k = .ifStatement then [ofTree (.node k f s cs)]
      else if k = .statementList then among cs
      else []) ++ among ts
end

def hasElse : Conditional → Bool
  | .bare _ _ => false
  | _ => true

mutual
/-- How many conditional statements with an `else` stand in each other, in whatever branch. -/
def depth : Conditional → Nat
  | .bare _ inner => 1 + deepest inner
  | .elseIf _ inner next => 1 + max (deepest inner) (if next.hasElse then next.depth else 0)
  | .elseBlock _ inner _ _ elseInner => 1 + max (deepest inner) (deepest elseInner)

def deepest : List Conditional → Nat
  | [] => 0
  | c :: cs => max (if c.hasElse then c.depth else 0) (deepest cs)
end

mutual
/-- How deep they stand in each other in first branches. -/
def straightDepth : Conditional → Nat
  | .bare _ inner => 1 + straightDeepest inner
  | .elseIf _ inner _ => 1 + straightDeepest inner
  | .elseBlock _ inner _ _ _ => 1 + straightDeepest inner

def straightDeepest : List Conditional → Nat
  | [] => 0
  | c :: cs => max (if c.hasElse then c.straightDepth else 0) (straightDeepest cs)
end

def thenLines : Conditional → Nat
  | .bare n _ => n
  | .elseIf n _ _ => n
  | .elseBlock n _ _ _ _ => n

mutual
/-- The lines of the branches after `else`. -/
def elseLines : Conditional → Nat
  | .bare _ _ => 0
  | .elseIf _ inner next => next.thenLines + next.elseLines + elseLinesAll inner
  | .elseBlock _ inner lines _ _ => lines + elseLinesAll inner

def elseLinesAll : List Conditional → Nat
  | [] => 0
  | c :: cs => c.elseLines + elseLinesAll cs
end

mutual
/-- The blocks after `else` that return. -/
def returningElses : Conditional → Nat
  | .bare _ inner => returningElsesAll inner
  | .elseIf _ inner next => next.returningElses + returningElsesAll inner
  | .elseBlock _ inner _ returns _ => (if returns then 1 else 0) + returningElsesAll inner

def returningElsesAll : List Conditional → Nat
  | [] => 0
  | c :: cs => c.returningElses + returningElsesAll cs
end

end Conditional

/-- A chain of conditions nested too deep. -/
structure Nesting where
  location : Location
  depth : Nat
  straightDepth : Nat
  returningElses : Nat
  deriving DecidableEq, Repr

namespace Nesting

/-- How deep conditions may nest, and how many lines their `else` branches must have to count. -/
structure Limits where
  depth : Int
  lines : Int
  deriving DecidableEq, Repr

def limits (depth lines : Int) : Limits :=
  ⟨if 0 ≤ depth then depth else 2, if 0 < lines then lines else 3⟩

/-- What is reported of a conditional statement. -/
def of? (l : Limits) (f : SourceFile) (function : String) (t : Tree) : Option Nesting :=
  let c := Conditional.ofTree t
  if t.kind = .ifStatement && c.hasElse && l.depth < c.depth && l.lines ≤ c.elseLines then
    some ⟨Location.of f function t.start, c.depth, c.straightDepth, c.returningElses⟩
  else none

mutual
/-- The chains in a node; one that is reported is not searched further. -/
def inTree (l : Limits) (f : SourceFile) (function : String) : Tree → List Nesting
  | .node k field s cs =>
    match of? l f function (.node k field s cs) with
    | some n => [n]
    | none => inTrees l f function cs

def inTrees (l : Limits) (f : SourceFile) (function : String) : List Tree → List Nesting
  | [] => []
  | t :: ts =>
    (if t.kind.isNamed then inTree l f function t else []) ++ inTrees l f function ts
end

def inFile (l : Limits) (f : SourceFile) : List Nesting :=
  (bodies f).flatMap fun (name, _, body) => inTree l f name body

def toJson (n : Nesting) : Json :=
  .obj (n.location.fields ++ [("nesting_depth", .int n.depth),
    ("happy_path_depth", .int n.straightDepth), ("error_branches", .int n.returningElses),
    ("complexity_reduction_percent", .int ((n.depth - 1) * 100 / n.depth : Nat)),
    ("suggestion", .str ("Invert conditions and use early returns for error cases (depth "
      ++ toString n.depth ++ " -> 0)"))])

end Nesting

end GoAtlas.Finding
