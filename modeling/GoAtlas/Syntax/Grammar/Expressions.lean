import GoAtlas.Syntax.Grammar.Types

namespace GoAtlas.Syntax.Grammar

open Rule

variable (g : Grammar)

def literalKind : TokenClass → Option Kind
  | .int => some .intLiteral
  | .float => some .floatLiteral
  | .imaginary => some .imaginaryLiteral
  | .rune => some .runeLiteral
  | _ => none

/-- The kind of a name in an expression. -/
def nameKind (text : String) : Kind :=
  match text with
  | "nil" => .nilLiteral
  | "true" => .trueLiteral
  | "false" => .falseLiteral
  | "iota" => .iotaLiteral
  | _ => .identifier

/-- Names that never stand for a type where an expression is possible. -/
def isValueName (t : Token) : Bool :=
  t.cls = .name && ["nil", "true", "false", "iota", "new", "make"].contains t.text

/-- An expression that can be read as a type name. -/
def asTypeName? : Tree → Option Tree
  | .node .identifier f s cs => some (.node .typeIdentifier f s cs)
  | .node .selectorExpression f s [.node .identifier _ s₁ _, dot, .node .fieldIdentifier _ s₂ _] =>
    some (.node .qualifiedType f s
      [.node .packageIdentifier (some .package) s₁ [], dot,
        .node .typeIdentifier (some .name) s₂ []])
  | _ => none

/-- A value, past whose line it can be continued. -/
def literalElement : Rule Tree := do
  let body ← if ← seesSymbol 0 "\x7b" then g .literalValue else g (.expression false)
  lineBreaks
  pure (.spanning .literalElement [body])

def literalMember : Rule Tree := do
  let element ← literalElement g
  if ← seesSymbol 0 ":" then
    let colon ← symbol ":"
    let value ← literalElement g
    pure (.spanning .keyedElement [element.withField .key, colon, value.withField .value])
  else pure element

def literalValue : Rule Tree :=
  .spanning .literalValue <$> between "\x7b" "\x7d" do
    match ← optional (commaList (literalMember g)) with
    | some members => pure (members ++ (← trailingComma))
    | none => pure []

def compositeLiteral (type : Tree) : Rule Tree := do
  let body ← g .literalValue
  pure (.spanning .compositeLiteral [type.withField .type, body.withField .body])

def argument : Rule Tree := do
  let e ← g (.expression false)
  match ← optional (symbol "...") with
  | some dots => pure (.spanning .variadicArgument [e, dots])
  | none => pure e

def argumentList : Rule Tree :=
  .spanning .argumentList <$> between "(" ")" do
    match ← optional (commaList (argument g)) with
    | some args => pure (args ++ (← trailingComma))
    | none => pure []

/-- The arguments of the allocating functions, of which the first is a type. -/
def allocationArguments : Rule Tree :=
  .spanning .argumentList <$> between "(" ")" do
    match ← optional (g .type) with
    | none => pure []
    | some type =>
      let more ← many do
        let comma ← symbol ","
        pure [comma, ← g (.expression false)]
      pure (type :: more.flatten ++ (← trailingComma))

def call (function arguments : Tree) : Tree :=
  .spanning .callExpression [function.withField .function, arguments.withField .arguments]

/-- A conversion to `type` of the one operand that follows in parentheses. -/
def conversion (type : Tree) : Rule Tree := do
  let rest ← between "(" ")" do
    let operand ← g (.expression false)
    pure (operand.withField .operand :: (← trailingComma))
  pure (.spanning .typeConversionExpression (type.withField .type :: rest))

/-- A type in front of a conversion or a literal value. -/
def typeOperand : Rule Tree := do
  let implicit : Rule Tree := do
    let o ← symbol "["
    let dots ← symbol "..."
    let c ← symbol "]"
    let element ← g .type
    compositeLiteral g
      (.spanning .implicitLengthArrayType [o, dots, c, element.withField .element])
  implicit <|> do
    let type ← g .type
    let literal := type.kind = .sliceType || type.kind = .arrayType || type.kind = .mapType
      || type.kind = .structType
    if literal && (← seesSymbol 0 "\x7b") then compositeLiteral g type else conversion g type

def funcLiteral : Rule Tree := do
  let func ← keyword "func"
  let sig ← signature g
  let body ← g .block
  pure (.spanning .funcLiteral (func :: sig ++ [body.withField .body]))

/-- A type that is, behind pointers and parentheses, a name with type arguments. -/
def isInstance (type : Tree) : Bool :=
  match type with
  | .node .genericType _ _ _ => true
  | .node .parenthesizedType _ _ [_, t, _] => isInstance t
  | .node .pointerType _ _ [_, t] => isInstance t
  | _ => false

def parenthesized : Rule Tree :=
  (do let type ← parenthesizedType g
      require (isInstance type)
      conversion g type)
    <|> (.spanning .parenthesizedExpression <$> between "(" ")" do pure [← g (.expression false)])
    <|> (do conversion g (← parenthesizedType g))

/-- An operand, and whether it is a name that may stand for a type. -/
def operand : Rule (Tree × Bool) := do
  let some t ← ahead 0 | failure
  match t.cls, t.text with
  | .name, "new" | .name, "make" =>
    let id ← name .identifier
    if ← seesSymbol 0 "(" then pure (call id (← allocationArguments g), false)
    else pure (id, false)
  | .name, text => pure (← name (nameKind text), nameKind text = .identifier)
  | .symbol, "(" => pure (← parenthesized g, false)
  | .keyword, "func" => pure (← funcLiteral g, false)
  | .rawString, _ | .quotedString, _ => pure (← stringLiteral, false)
  | cls, _ =>
    match literalKind cls with
    | some k => pure ((← next).as k, false)
    | none => pure (← typeOperand g, false)

/-- A literal of, or a conversion to, the type `typeId` with arguments. -/
def instanceOperand (header : Bool) (typeId : Tree) : Rule Tree := do
  require !(← sees 1 isValueName)
  let type := instantiated typeId (← typeArguments g)
  if !header && (← seesSymbol 0 "\x7b") then compositeLiteral g type else conversion g type

def indexOrSlice (e : Tree) : Rule Tree := do
  let o ← symbol "["
  let bound (f : Field) : Rule (List Tree) := do
    pure ((← optional (g (.expression false))).map (·.withField f)).toList
  let first ← optional (g (.expression false))
  if ← seesSymbol 0 ":" then
    let colon ← symbol ":"
    let stop ← bound .stop
    let capacity ← optional do
      let second ← symbol ":"
      let c ← g (.expression false)
      pure [second, c.withField .capacity]
    let c ← symbol "]"
    pure (.spanning .sliceExpression
      ([e.withField .operand, o] ++ (first.map (·.withField .start)).toList ++ [colon] ++ stop
        ++ capacity.getD [] ++ [c]))
  else
    let some i := first | failure
    let c ← symbol "]"
    pure (.spanning .indexExpression [e.withField .operand, o, i.withField .index, c])

def instantiation (typeId : Tree) : Rule Tree := do
  let args ← between "[" "]" do pure ((← commaList (g .type)) ++ (← trailingComma))
  pure (.spanning .typeInstantiationExpression (typeId.withField .type :: args))

/-- One selector, index, call, assertion or literal value after an operand; the flag says that the
operand may stand for a type. -/
def suffix (header : Bool) : Tree × Bool → Rule (Tree × Bool)
  | (e, typeable) => do
    let typeName? := if typeable then asTypeName? e else none
    let some t ← ahead 0 | failure
    match t.cls, t.text with
    | .symbol, "." =>
      if ← seesSymbol 1 "(" then
        require !(← seesKeyword 2 "type")
        let dot ← symbol "."
        let rest ← between "(" ")" do pure [(← g .type).withField .type]
        pure (.spanning .typeAssertionExpression (e.withField .operand :: dot :: rest), false)
      else
        let dot ← symbol "."
        let field ← name .fieldIdentifier
        pure (.spanning .selectorExpression [e.withField .operand, dot, field.withField .field],
          typeable && e.kind = .identifier)
    | .symbol, "[" =>
      let asInstance : Rule Tree :=
        match typeName? with
        | some typeId => instanceOperand g header typeId
        | none => failure
      let asTypes : Rule Tree :=
        match typeName? with
        | some typeId => instantiation g typeId
        | none => failure
      pure (← asInstance <|> indexOrSlice g e <|> asTypes, false)
    | .symbol, "(" => pure (call e (← argumentList g), false)
    | .symbol, "\x7b" =>
      require !header
      let some typeId := typeName? | failure
      pure (← compositeLiteral g typeId, false)
    | _, _ => failure

def primary (header : Bool) : Rule Tree := do
  let (e, _) ← iterate (suffix g header) (← operand g)
  pure e

def unaryOperators : List String := ["+", "-", "!", "^", "*", "&", "<-"]

/-- How tightly a binary operator binds; zero for anything else. -/
def precedence (t : Token) : Nat :=
  if t.cls ≠ .symbol then 0
  else if ["*", "/", "%", "<<", ">>", "&", "&^"].contains t.text then 5
  else if ["+", "-", "|", "^"].contains t.text then 4
  else if ["==", "!=", "<", "<=", ">", ">="].contains t.text then 3
  else if t.text == "&&" then 2
  else if t.text == "||" then 1
  else 0

def unary (header : Bool) : Rule Tree := do
  let some t ← ahead 0 | failure
  let channel := t.isSymbol "<-" && (← seesKeyword 1 "chan")
  if t.cls = .symbol && unaryOperators.contains t.text && !channel then
    let operator := (← next).leaf
    let e ← g (.unary header)
    pure (.spanning .unaryExpression [operator.withField .operator, e.withField .operand])
  else primary g header

def binary (left : Tree) (operator : Token) (right : Tree) : Tree :=
  .spanning .binaryExpression
    [left.withField .left, operator.leaf.withField .operator, right.withField .right]

/-- Joins operands over the operators of one level, from left to right. -/
def joinLevel (level : Nat) (left : Tree) :
    List (Token × Tree) → Tree × List (Token × Tree)
  | [] => (left, [])
  | (op, right) :: r =>
    if precedence op = level then joinLevel level (binary left op right) r
    else
      let (e, rest) := joinLevel level right r
      (left, (op, e) :: rest)

/-- Joins operands over operators, the tightest level first. -/
def join (first : Tree) (rest : List (Token × Tree)) : Tree :=
  ([5, 4, 3, 2, 1].foldl (fun (e, r) level => joinLevel level e r) (first, rest)).1

def expressionRule (header : Bool) : Rule Tree := do
  let first ← g (.unary header)
  let rest ← many do
    let op ← satisfy (0 < precedence ·)
    pure (op, ← g (.unary header))
  pure (join first rest)

def expressionList (header : Bool) : Rule Tree :=
  .spanning .expressionList <$> commaList (g (.expression header))

end GoAtlas.Syntax.Grammar
