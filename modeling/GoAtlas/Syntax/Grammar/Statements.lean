import GoAtlas.Syntax.Grammar.Declarations

namespace GoAtlas.Syntax.Grammar

open Rule

variable (g : Grammar)

def assignmentOperators : List String :=
  ["=", "*=", "/=", "%=", "<<=", ">>=", "&=", "&^=", "+=", "-=", "|=", "^="]

/-- The expression of a list of one. -/
def single? (list : Tree) : Option Tree :=
  match list.children with
  | [e] => some e
  | _ => none

/-- The rest of a simple statement that starts with an expression list. -/
def simpleFrom (header : Bool) (list : Tree) : Rule Tree := do
  let t := (← ahead 0).getD default
  if t.isSymbol ":=" then
    let define ← symbol ":="
    let right ← expressionList g header
    pure (.spanning .shortVarDeclaration [list.withField .left, define, right.withField .right])
  else if t.cls = .symbol && assignmentOperators.contains t.text then
    let operator := (← next).leaf
    let right ← expressionList g header
    pure (.spanning .assignmentStatement
      [list.withField .left, operator.withField .operator, right.withField .right])
  else
    let some e := single? list | failure
    match t.cls, t.text with
    | .symbol, "++" => pure (.spanning .incStatement [e, ← symbol "++"])
    | .symbol, "--" => pure (.spanning .decStatement [e, ← symbol "--"])
    | .symbol, "<-" =>
      let arrow ← symbol "<-"
      let value ← g (.expression header)
      pure (.spanning .sendStatement [e.withField .channel, arrow, value.withField .value])
    | _, _ => pure (.spanning .expressionStatement [e])

def simpleStatement (header : Bool) : Rule Tree := do
  simpleFrom g header (← expressionList g header)

/-- Tokens in front of which a list of statements ends. -/
def endsStatements (t : Token) : Bool :=
  t.isSymbol "\x7d" || t.isKeyword "case" || t.isKeyword "default"

def label : Rule (List Tree) := do
  let id ← name .labelName
  pure [id.withField .label, ← symbol ":"]

/-- Adds a statement with its terminator to those read so far, latest first; only after a terminator
can another one follow. A label with no statement can only come last. -/
def moreStatements : List Tree × Bool → Rule (List Tree × Bool)
  | (_, false) => failure
  | (before, true) => do
    require !(← sees 0 endsStatements)
    if (← sees 0 (·.cls = .name)) && (← seesSymbol 1 ":") && (← sees 2 endsStatements) then
      pure (.spanning .labeledStatement (← label) :: before, false)
    else
      let s ← g .statement
      match ← optional terminator with
      | some t => pure (t :: s :: before, true)
      | none => pure (s :: before, false)

/-- The statements of a block or clause, if there are any. -/
def statementList : Rule (List Tree) := do
  let (statements, _) ← iterate (moreStatements g) ([], true)
  pure (if statements.isEmpty then [] else [.spanning .statementList statements.reverse])

def block : Rule Tree :=
  .spanning .block <$> between "\x7b" "\x7d" (statementList g)

/-- The expression of a statement that is nothing more. -/
def plainExpression? (s : Tree) : Option Tree :=
  match s with
  | .node .expressionStatement _ _ [e] => some e
  | _ => none

def ifStatement : Rule Tree := do
  let if_ ← keyword "if"
  let s ← simpleStatement g true
  let head : List Tree ←
    if ← seesSymbol 0 ";" then
      let semicolon ← symbol ";"
      let condition ← g (.expression true)
      pure [s.withField .initializer, semicolon, condition.withField .condition]
    else
      let some condition := plainExpression? s | failure
      pure [condition.withField .condition]
  let consequence ← g .block
  let alternative ← optional do
    let else_ ← keyword "else"
    let other ← if ← seesKeyword 0 "if" then g .ifStatement else g .block
    pure [else_, other.withField .alternative]
  pure (.spanning .ifStatement
    (if_ :: head ++ [consequence.withField .consequence] ++ alternative.getD []))

/-- The rest of a three-part loop header, from its first semicolon on. -/
def forClause (initializer : Option Tree) : Rule Tree := do
  let first ← symbol ";"
  let condition ← if ← seesSymbol 0 ";" then pure none else some <$> g (.expression true)
  let second ← symbol ";"
  let update ← if ← seesSymbol 0 "\x7b" then pure none else some <$> simpleStatement g true
  pure (.spanning .forClause
    ((initializer.map (·.withField .initializer)).toList ++ [first]
      ++ (condition.map (·.withField .condition)).toList ++ [second]
      ++ (update.map (·.withField .update)).toList))

/-- A range header after the targets it assigns to, if any. -/
def rangeClause (targets : List Tree) : Rule Tree := do
  let range ← keyword "range"
  let right ← g (.expression true)
  pure (.spanning .rangeClause (targets ++ [range, right.withField .right]))

def forHeader : Rule (List Tree) := do
  if ← seesSymbol 0 "\x7b" then pure []
  else if ← seesKeyword 0 "range" then pure [← rangeClause g []]
  else if ← seesSymbol 0 ";" then pure [← forClause g none]
  else
    let list ← expressionList g true
    if (← seesKeyword 1 "range") && ((← seesSymbol 0 ":=") || (← seesSymbol 0 "=")) then
      let assign := (← next).leaf
      pure [← rangeClause g [list.withField .left, assign]]
    else
      let s ← simpleFrom g true list
      if ← seesSymbol 0 ";" then pure [← forClause g (some s)]
      else
        let some condition := plainExpression? s | failure
        pure [condition]

def forStatement : Rule Tree := do
  let for_ ← keyword "for"
  let header ← forHeader g
  let body ← g .block
  pure (.spanning .forStatement (for_ :: header ++ [body.withField .body]))

/-- A clause: its head, a colon and its statements. -/
def clause (k : Kind) (head : Rule (List Tree)) : Rule Tree := do
  let head ← head
  let colon ← symbol ":"
  pure (.spanning k (head ++ colon :: (← statementList g)))

def defaultCase : Rule Tree :=
  clause g .defaultCase do pure [← keyword "default"]

def expressionCase : Rule Tree :=
  clause g .expressionCase do
    pure [← keyword "case", (← expressionList g false).withField .value]

/-- The commas between the types of a clause play the part of a type as well. -/
def typeCase : Rule Tree :=
  clause g .typeCase do
    let case_ ← keyword "case"
    pure (case_ :: (← commaList (g .type)).map (·.withField .type))

def clauses (c : Rule Tree) : Rule (List Tree) :=
  between "\x7b" "\x7d" (many (c <|> defaultCase g))

/-- The mark of a type switch after the value it asks about. -/
def typeMark : Rule (List Tree) := do
  let dot ← symbol "."
  pure (dot :: (← between "(" ")" do pure [← keyword "type"]))

/-- The subject of a type switch: a value, possibly given a name. -/
def typeSubject? : Tree → Option (List Tree)
  | .node .expressionStatement _ _ [e] => some [e.withField .value]
  | .node .shortVarDeclaration _ _ [left, define, .node .expressionList _ _ [e]] =>
    some [left.withField .switchAlias, define, e.withField .value]
  | _ => none

/-- A switch after its keyword and initializer. -/
def switchRest (before : List Tree) : Rule Tree := do
  if ← seesSymbol 0 "\x7b" then
    pure (.spanning .expressionSwitchStatement (before ++ (← clauses g (expressionCase g))))
  else
    let s ← simpleStatement g true
    if ← seesSymbol 0 "." then
      let some subject := typeSubject? s | failure
      let mark ← typeMark
      pure (.spanning .typeSwitchStatement (before ++ subject ++ mark ++ (← clauses g (typeCase g))))
    else
      let some value := plainExpression? s | failure
      pure (.spanning .expressionSwitchStatement
        (before ++ value.withField .value :: (← clauses g (expressionCase g))))

def switchStatement : Rule Tree := do
  let switch ← keyword "switch"
  let initializer ← optional do
    let s ← simpleStatement g true
    pure [s.withField .initializer, ← symbol ";"]
  switchRest g (switch :: initializer.getD [])

def communication : Rule Tree := do
  let list ← expressionList g false
  if (← seesSymbol 0 ":=") || (← seesSymbol 0 "=") then
    let assign := (← next).leaf
    let right ← g (.expression false)
    pure (.spanning .receiveStatement [list.withField .left, assign, right.withField .right])
  else
    let some e := single? list | failure
    if ← seesSymbol 0 "<-" then
      let arrow ← symbol "<-"
      let value ← g (.expression false)
      pure (.spanning .sendStatement [e.withField .channel, arrow, value.withField .value])
    else pure (.spanning .receiveStatement [e.withField .right])

def communicationCase : Rule Tree :=
  clause g .communicationCase do
    pure [← keyword "case", (← communication g).withField .communication]

def selectStatement : Rule Tree := do
  let select ← keyword "select"
  pure (.spanning .selectStatement (select :: (← clauses g (communicationCase g))))

/-- A keyword and the label it may name. -/
def jump (word : String) (k : Kind) : Rule Tree := do
  let w ← keyword word
  pure (.spanning k (w :: (← optional (name .labelName)).toList))

/-- A keyword in front of an expression. -/
def started (word : String) (k : Kind) : Rule Tree := do
  let w ← keyword word
  pure (.spanning k [w, ← g (.expression false)])

def returnStatement : Rule Tree := do
  let return_ ← keyword "return"
  pure (.spanning .returnStatement (return_ :: (← optional (expressionList g false)).toList))

def gotoStatement : Rule Tree := do
  let goto_ ← keyword "goto"
  pure (.spanning .gotoStatement [goto_, ← name .labelName])

def labeledStatement : Rule Tree := do
  let mark ← label
  pure (.spanning .labeledStatement (mark ++ [← g .statement]))

def statementRule : Rule Tree := do
  let some t ← ahead 0 | failure
  match t.cls, t.text with
  | .keyword, "const" => constDeclaration g
  | .keyword, "var" => varDeclaration g
  | .keyword, "type" => typeDeclaration g
  | .keyword, "return" => returnStatement g
  | .keyword, "go" => started g "go" .goStatement
  | .keyword, "defer" => started g "defer" .deferStatement
  | .keyword, "if" => g .ifStatement
  | .keyword, "for" => forStatement g
  | .keyword, "switch" => switchStatement g
  | .keyword, "select" => selectStatement g
  | .keyword, "fallthrough" => .spanning .fallthroughStatement <$> (do pure [← keyword "fallthrough"])
  | .keyword, "break" => jump "break" .breakStatement
  | .keyword, "continue" => jump "continue" .continueStatement
  | .keyword, "goto" => gotoStatement
  | .symbol, "\x7b" => g .block
  | .symbol, ";" => (·.withKind .emptyStatement) <$> symbol ";"
  | .name, _ =>
    if ← seesSymbol 1 ":" then labeledStatement g else simpleStatement g false
  | _, _ => simpleStatement g false

end GoAtlas.Syntax.Grammar
