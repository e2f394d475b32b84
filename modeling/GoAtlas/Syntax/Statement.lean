import GoAtlas.Syntax.Tree

namespace GoAtlas.Syntax.Tree

/-- Nodes without the comments among them. -/
def dropComments (ts : List Tree) : List Tree :=
  ts.filter (!·.isComment)

/-- The statements among the children of a block, a list of them being taken apart. -/
def statementsAmong (ts : List Tree) : List Tree :=
  ts.flatMap fun t =>
    if t.kind = .statementList then dropComments t.named else dropComments [t]

def blockStatements (t : Tree) : List Tree :=
  statementsAmong t.named

/-- The statements of a block that may be missing. -/
def statements? (t : Option Tree) : List Tree :=
  (t.map blockStatements).getD []

/-- Whether a child belongs to the head of a clause. -/
def isClauseHead (t : Tree) : Bool :=
  t.field = some .value || t.field = some .type || t.field = some .communication

/-- Whether a node is a clause of a switch or select statement. -/
def isClause (t : Tree) : Bool :=
  match t.kind with
  | .expressionCase | .typeCase | .defaultCase | .communicationCase => true
  | _ => false

def clauses (t : Tree) : List Tree :=
  t.named.filter isClause

/-- The expressions of a list, or a single expression. -/
def expressions (t : Tree) : List Tree :=
  if t.kind = .expressionList then dropComments t.named else [t]

/-- The expressions of a list that may be missing. -/
def expressions? (t : Option Tree) : List Tree :=
  (t.map expressions).getD []

mutual
/-- What stands inside any parentheses: at each step the first named child. -/
def core? : Tree → Option Tree
  | .node k f s cs =>
    if k = .parenthesizedExpression then coreOfFirst? cs else some (.node k f s cs)

def coreOfFirst? : List Tree → Option Tree
  | [] => none
  | t :: ts => if t.kind.isNamed then core? t else coreOfFirst? ts
end

/-- The text of the operator of an expression or assignment. -/
def operator (source : ByteArray) (t : Tree) : String :=
  text? source (t.part? .operator)

def isComparison (operator : String) : Bool :=
  ["==", "!=", "<", "<=", ">", ">="].contains operator

def isLogical (operator : String) : Bool :=
  ["&&", "||"].contains operator

/-- Whether a node is a chosen member of a package or of a value, written with plain names. -/
def selection? (source : ByteArray) (t : Tree) : Option (String × String) :=
  if t.kind = .selectorExpression then do
    let operand ← t.part? .operand
    if operand.kind = .identifier then
      some (operand.text source, text? source (t.part? .field))
    else none
  else none

end GoAtlas.Syntax.Tree
