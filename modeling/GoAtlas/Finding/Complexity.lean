import GoAtlas.Symbol.Table
import GoAtlas.Syntax.Statement

namespace GoAtlas.Finding

open Syntax

/-- How complex a function is, by the number of its paths. -/
inductive Band where
  | low
  | moderate
  | high
  | veryHigh
  | extreme
  deriving DecidableEq, Repr

namespace Band

def text : Band → String
  | .low => "low"
  | .moderate => "moderate"
  | .high => "high"
  | .veryHigh => "very_high"
  | .extreme => "extreme"

def ofPaths (n : Int) : Band :=
  if 20 ≤ n then .extreme
  else if 15 ≤ n then .veryHigh
  else if 10 ≤ n then .high
  else if 5 ≤ n then .moderate
  else .low

end Band

/-- What statements add to the measures of a function. -/
structure Tally where
  paths : Nat := 0
  effort : Nat := 0
  locals : Nat := 0
  blocks : Nat := 0
  depth : Nat := 0
  deriving DecidableEq, Repr

namespace Tally

/-- Counts are added; of two depths the greater counts. -/
def add (a b : Tally) : Tally :=
  ⟨a.paths + b.paths, a.effort + b.effort, a.locals + b.locals, a.blocks + b.blocks,
    max a.depth b.depth⟩

instance : Add Tally := ⟨add⟩

/-- A decision made at a depth. -/
def decision (depth : Nat) : Tally := { effort := 1 + depth }

/-- A decision whose branches are one level deeper. -/
def branching (depth paths : Nat) : Tally := { effort := 1 + depth, depth := depth + 1, paths }

end Tally

/-- How a node is counted. -/
inductive Count where
  | statement (depth : Nat)
  /-- The statements a node holds. -/
  | contents (depth : Nat)
  /-- The function literals in a node, without what they hold. -/
  | literals (depth : Nat)

namespace Count

def inPart (f : Field) (count : Count) (t : Tree) : Option Count :=
  if t.field = some f then some count else none

/-- Statements, those of a list among them. -/
def ofStatements (depth : Nat) (t : Tree) : Option Count :=
  if t.kind.isNamed && !t.isClauseHead then
    some (if t.kind = .statementList then .contents depth else .statement depth)
  else none

/-- The branch after `else`: a further condition stays on its level. -/
def ofAlternative (depth : Nat) (t : Tree) : Option Count :=
  if t.field = some .alternative then
    some (.statement (if t.kind = .ifStatement then depth else depth + 1))
  else none

end Count

/-- The paths added by the clauses of a switch: one for each but the default, and one for the
missing default. -/
def switchPaths (t : Tree) : Nat :=
  let written := t.clauses.filter (·.kind != .defaultCase)
  written.length + if written.length = t.clauses.length then 1 else 0

/-- An `else` that is a block adds a path. -/
def elsePaths (t : Tree) : Nat :=
  match t.part? .alternative with
  | some a => if a.kind = .ifStatement then 0 else 1
  | none => 0

/-- The variables a short declaration names. -/
def shortVariables (source : ByteArray) (t : Tree) : Nat :=
  ((Tree.expressions? (t.part? .left)).filter fun e =>
    e.kind = .identifier && e.text source != "_").length

/-- The variables a declaration names. -/
def declaredVariables (t : Tree) : Nat :=
  ((t.specs .varSpec).flatMap (·.parts .name)).length

mutual
def tally (source : ByteArray) (count : Count) : Tree → Tally
  | .node k f s cs =>
    let t : Tree := .node k f s cs
    match count with
    | .literals depth =>
      if k = .funcLiteral then .decision depth
      else
        tallyOf source (fun c => if c.kind.isNamed then some (.literals depth) else none) cs
    | .contents depth => tallyOf source (Count.ofStatements depth) cs
    | .statement depth =>
      match k with
      | .ifStatement =>
        Tally.branching depth (1 + elsePaths t)
          + tallyOf source (Count.inPart .initializer (.statement (depth + 1))) cs
          + tallyOf source (Count.inPart .condition (.literals depth)) cs
          + tallyOf source (Count.inPart .consequence (.statement (depth + 1))) cs
          + tallyOf source (Count.ofAlternative depth) cs
      | .forStatement =>
        Tally.branching depth 1
          + tallyOf source (Count.inPart .body (.statement (depth + 1))) cs
      | .expressionSwitchStatement | .typeSwitchStatement =>
        Tally.branching depth (switchPaths t) + tallyClauses source (depth + 1) cs
      | .selectStatement =>
        Tally.branching depth t.clauses.length + tallyClauses source (depth + 1) cs
      | .block =>
        { blocks := if depth = 0 then 0 else 1, depth }
          + tallyOf source (Count.ofStatements depth) cs
      | .labeledStatement => tallyLabeled source depth cs
      | .goStatement | .deferStatement =>
        Tally.decision depth
          + tallyOf source (fun c => if c.kind.isNamed then some (.literals depth) else none) cs
      | .funcLiteral => .decision depth
      | _ =>
        { locals :=
            if k = .shortVarDeclaration then shortVariables source t
            else if k = .varDeclaration then declaredVariables t
            else 0 }
          + tallyOf source (fun c => if c.kind.isNamed then some (.literals depth) else none) cs

def tallyOf (source : ByteArray) (select : Tree → Option Count) : List Tree → Tally
  | [] => {}
  | t :: ts =>
    (match select t with
      | some count => tally source count t
      | none => {})
    + tallyOf source select ts

/-- The statements of the clauses of a switch or select statement. -/
def tallyClauses (source : ByteArray) (depth : Nat) : List Tree → Tally
  | [] => {}
  | t :: ts =>
    (if t.isClause then tally source (.contents depth) t else {}) + tallyClauses source depth ts

/-- The first node after a label. -/
def tallyLabeled (source : ByteArray) (depth : Nat) : List Tree → Tally
  | [] => {}
  | t :: ts =>
    if t.kind.isNamed && t.kind != .labelName then tally source (.statement depth) t
    else tallyLabeled source depth ts
end

/-- The measures of a function. -/
structure Metrics where
  paths : Nat
  effort : Nat
  lines : Nat
  parameters : Nat
  locals : Nat
  blocks : Nat
  depth : Nat
  deriving DecidableEq, Repr

namespace Metrics

/-- The number of lines a node spans. -/
def lineCount (t : Tree) : Nat :=
  t.span.last.row - t.span.first.row + 1

/-- The measures of a function or method; there are none without a body. -/
def ofFunction? (source : ByteArray) (t : Tree) : Option Metrics :=
  (t.part? .body).map fun body =>
    let tally := tally source (.contents 0) body
    let parameters := ((t.part? .parameters).map Tree.named).getD []
    { paths := 1 + tally.paths
      effort := tally.effort
      lines := lineCount body
      parameters := (parameters.flatMap (·.parts .name)).length
      locals := tally.locals
      blocks := tally.blocks
      depth := tally.depth }

def toJson (m : Metrics) : Json :=
  .obj [("cyclomatic_complexity", .int m.paths), ("cognitive_complexity", .int m.effort),
    ("lines_of_code", .int m.lines), ("parameters", .int m.parameters),
    ("local_variables", .int m.locals), ("nested_blocks", .int m.blocks),
    ("max_nesting_depth", .int m.depth)]

end Metrics

/-- A function that is complex enough to be reported. -/
structure ComplexFunction where
  function : Symbol
  metrics : Metrics
  deriving DecidableEq, Repr

namespace ComplexFunction

def band (c : ComplexFunction) : Band :=
  .ofPaths c.metrics.paths

def toJson (c : ComplexFunction) : Json :=
  .obj [("schema_version", .int schemaVersion), ("function", c.function.toJson),
    ("metrics", c.metrics.toJson), ("file", .str c.function.file), ("line", .int c.function.line),
    ("column", .int c.function.column), ("level", .str c.band.text)]

/-- The least number of paths that is reported, if none that makes sense is given. -/
def defaultMinimum : Int := 10

def minimum (n : Int) : Int :=
  if 0 < n then n else defaultMinimum

/-- The functions of a file with at least `least` paths. -/
def inFile (least : Int) (package : String) (f : SourceFile) : List ComplexFunction :=
  f.functions.filterMap fun t => do
    let metrics ← Metrics.ofFunction? f.content t
    if (metrics.paths : Int) < least then none
    else pure ⟨← Symbol.ofFunction? f package t, metrics⟩

/-- Most paths first; equals stay in order. -/
def ranked (l : List ComplexFunction) : List ComplexFunction :=
  l.mergeSort fun a b => decide (b.metrics.paths ≤ a.metrics.paths)

def inPackage (least : Int) (p : Package) : List ComplexFunction :=
  ranked (p.files.flatMap (inFile least p.key))

def inWorkspace (least : Int) (ws : Workspace) : List ComplexFunction :=
  ranked (ws.packages.flatMap (inPackage least))

end ComplexFunction

end GoAtlas.Finding
