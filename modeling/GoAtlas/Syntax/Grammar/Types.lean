import GoAtlas.Syntax.Grammar.Goal

namespace GoAtlas.Syntax.Grammar

open Rule

variable (g : Grammar)

/-- A union of types under the given kind. -/
def union (k : Kind) : Rule Tree := do
  let first ← g .type
  let more ← many do
    let bar ← symbol "|"
    let t ← g .type
    pure [bar, t]
  pure (.spanning k (first :: more.flatten))

def typeArguments : Rule Tree :=
  .spanning .typeArguments <$> between "[" "]" do
    pure ((← commaList (union g .typeElem)) ++ (← trailingComma))

/-- A type name, with its package if it has one. -/
def typeName : Rule Tree := do
  if (← seesSymbol 1 ".") && (← sees 2 (·.cls = .name)) then
    let package ← name .packageIdentifier
    let dot ← symbol "."
    let typeId ← name .typeIdentifier
    pure (.spanning .qualifiedType [package.withField .package, dot, typeId.withField .name])
  else name .typeIdentifier

/-- A type name given type arguments. -/
def instantiated (typeId arguments : Tree) : Tree :=
  .spanning .genericType [typeId.withField .type, arguments.withField .typeArguments]

def namedType : Rule Tree := do
  let typeId ← typeName
  match ← optional (typeArguments g) with
  | some arguments => pure (instantiated typeId arguments)
  | none => pure typeId

/-- The result of a signature: a list in parentheses or a single type. -/
def result : Rule (List Tree) := do
  if ← seesSymbol 0 "(" then pure [(← g .parameters).withField .result]
  else pure ((← optional (g .type)).map (·.withField .result)).toList

/-- Parameters and result. -/
def signature : Rule (List Tree) := do
  let parameters ← g .parameters
  pure (parameters.withField .parameters :: (← result g))

/-- One entry of a parameter list. A name on its own is a type, or one of several names that share
the type of a later entry. -/
inductive ParameterEntry where
  | lone (id : Tree)
  | typed (id type : Tree)
  | unnamed (type : Tree)
  | variadic (id : Option Tree) (dots type : Tree)

def parameterEntry : Rule ParameterEntry := do
  if ← seesSymbol 0 "..." then
    pure (.variadic none (← symbol "...") (← g .type))
  else if ← sees 0 (·.cls = .name) then
    if (← seesSymbol 1 ",") || (← seesSymbol 1 ")") then
      pure (.lone (← name .identifier))
    else if ← seesSymbol 1 "." then
      pure (.unnamed (← namedType g))
    else if ← seesSymbol 1 "..." then
      let id ← name .identifier
      pure (.variadic (some id) (← symbol "...") (← g .type))
    else
      (do let id ← name .identifier
          pure (.typed id (← g .type)))
        <|> (do pure (.unnamed (← namedType g)))
  else pure (.unnamed (← g .type))

/-- Names on their own, each with the comma after it, as parameters without a name. -/
def loneTypes (pending : List (Tree × List Tree)) : List Tree :=
  pending.flatMap fun (id, comma) =>
    .spanning .parameterDeclaration [(id.withKind .typeIdentifier).withField .type] :: comma

/-- The declarations of a parameter list, each entry coming with the comma after it. -/
def groupParameters (pending : List (Tree × List Tree)) :
    List (ParameterEntry × List Tree) → List Tree
  | [] => loneTypes pending
  | (.lone id, comma) :: r => groupParameters (pending ++ [(id, comma)]) r
  | (.typed id type, comma) :: r =>
    let names := pending.flatMap fun (id, comma) => id.withField .name :: comma
    .spanning .parameterDeclaration (names ++ [id.withField .name, type.withField .type])
      :: comma ++ groupParameters [] r
  | (.unnamed type, comma) :: r =>
    loneTypes pending ++
      .spanning .parameterDeclaration [type.withField .type] :: comma ++ groupParameters [] r
  | (.variadic id dots type, comma) :: r =>
    let names := (id.map (·.withField .name)).toList
    loneTypes pending ++
      .spanning .variadicParameterDeclaration (names ++ [dots, type.withField .type])
        :: comma ++ groupParameters [] r

def parameters : Rule Tree :=
  .spanning .parameterList <$> between "(" ")" do
    let entries ← many do
      let e ← parameterEntry g
      let comma ← trailingComma
      require (!comma.isEmpty || (← seesSymbol 0 ")"))
      pure (e, comma)
    pure (groupParameters [] entries)

def typeParameter : Rule Tree := do
  let names ← commaList ((·.withField .name) <$> name .identifier)
  let constraint ← union g .typeConstraint
  pure (.spanning .typeParameterDeclaration (names ++ [constraint.withField .type]))

def typeParameters : Rule Tree :=
  .spanning .typeParameterList <$> between "[" "]" do
    pure ((← commaList (typeParameter g)) ++ (← trailingComma))

def isString (t : Token) : Bool :=
  t.cls = .rawString || t.cls = .quotedString

/-- The pieces of a string literal. -/
def stringLeaf (t : Token) : Tree :=
  let kind := if t.cls = .rawString then Kind.rawStringLiteral else .interpretedStringLiteral
  .node kind none t.span (t.pieces.map fun (k, s) => .node k none s [])

def stringLiteral : Rule Tree :=
  stringLeaf <$> satisfy isString

/-- The names and type of a field, or the type alone for an embedded one. -/
def fieldMembers : Rule (List Tree) := do
  if ← seesSymbol 0 "*" then
    let star ← symbol "*"
    pure [star, (← namedType g).withField .type]
  else
    let embedded : Rule (List Tree) := do pure [(← namedType g).withField .type]
    let declared : Rule (List Tree) := do
      let names ← commaList ((·.withField .name) <$> name .fieldIdentifier)
      pure (names ++ [(← g .type).withField .type])
    if ← sees 1 (fun t => t.isTerminator || t.isSymbol "\x7d" || t.isSymbol "." || isString t) then
      embedded
    else declared <|> embedded

def fieldDeclaration : Rule Tree := do
  let members ← fieldMembers g
  let tag ← optional stringLiteral
  pure (.spanning .fieldDeclaration (members ++ (tag.map (·.withField .tag)).toList))

def structType : Rule Tree := do
  let struct ← keyword "struct"
  let fields ← between "\x7b" "\x7d" (terminated (fieldDeclaration g))
  pure (.spanning .structType [struct, .spanning .fieldDeclarationList fields])

def interfaceElement : Rule Tree := do
  if (← sees 0 (·.cls = .name)) && (← seesSymbol 1 "(") then
    let id ← name .fieldIdentifier
    pure (.spanning .methodElem (id.withField .name :: (← signature g)))
  else union g .typeElem

def interfaceType : Rule Tree := do
  let interface ← keyword "interface"
  let elements ← between "\x7b" "\x7d" (terminated (interfaceElement g))
  pure (.spanning .interfaceType (interface :: elements))

/-- An array or slice type. -/
def sequenceType : Rule Tree := do
  let o ← symbol "["
  if ← seesSymbol 0 "]" then
    let c ← symbol "]"
    let element ← g .type
    pure (.spanning .sliceType [o, c, element.withField .element])
  else
    let length ← g (.expression false)
    let c ← symbol "]"
    let element ← g .type
    pure (.spanning .arrayType [o, length.withField .length, c, element.withField .element])

def mapType : Rule Tree := do
  let map ← keyword "map"
  let o ← symbol "["
  let key ← g .type
  let c ← symbol "]"
  let value ← g .type
  pure (.spanning .mapType [map, o, key.withField .key, c, value.withField .value])

def channelType : Rule Tree := do
  let before ← optional (symbol "<-")
  let chan ← keyword "chan"
  let after ← if before.isSome then pure none else optional (symbol "<-")
  let value ← g .type
  pure (.spanning .channelType (before.toList ++ chan :: after.toList ++ [value.withField .value]))

def functionType : Rule Tree := do
  let func ← keyword "func"
  pure (.spanning .functionType (func :: (← signature g)))

def parenthesizedType : Rule Tree :=
  .spanning .parenthesizedType <$> between "(" ")" do pure [← g .type]

/-- A type behind a mark such as the star of a pointer. -/
def markedType (mark : String) (k : Kind) : Rule Tree := do
  let m ← symbol mark
  pure (.spanning k [m, ← g .type])

def typeRule : Rule Tree := do
  let some t ← ahead 0 | failure
  match t.cls, t.text with
  | .name, _ => namedType g
  | .symbol, "(" => parenthesizedType g
  | .symbol, "*" => markedType g "*" .pointerType
  | .symbol, "~" => markedType g "~" .negatedType
  | .symbol, "[" => sequenceType g
  | .symbol, "<-" => channelType g
  | .keyword, "chan" => channelType g
  | .keyword, "map" => mapType g
  | .keyword, "struct" => structType g
  | .keyword, "interface" => interfaceType g
  | .keyword, "func" => functionType g
  | _, _ => failure

end GoAtlas.Syntax.Grammar
