import GoAtlas.Syntax.Grammar.Expressions

namespace GoAtlas.Syntax.Grammar

open Rule

variable (g : Grammar)

/-- The values after an equals sign. -/
def initialValues : Rule (List Tree) := do
  let eq ← symbol "="
  pure [eq, (← expressionList g false).withField .value]

def constSpec : Rule Tree := do
  let names ← commaList (name .identifier)
  let typed : Rule (List Tree) := do
    let type ← g .type
    pure (type.withField .type :: (← initialValues g))
  let rest ← initialValues g <|> typed <|> pure []
  pure (.spanning .constSpec (names.map (·.withField .name) ++ rest))

def varSpec : Rule Tree := do
  let names ← commaList ((·.withField .name) <$> name .identifier)
  let typed : Rule (List Tree) := do
    let type ← g .type
    pure (type.withField .type :: (← optional (initialValues g)).getD [])
  let rest ← initialValues g <|> typed
  pure (.spanning .varSpec (names ++ rest))

def constDeclaration : Rule Tree := do
  let const ← keyword "const"
  let specs ← if ← seesSymbol 0 "(" then between "(" ")" (eachTerminated (constSpec g))
    else pure [← constSpec g]
  pure (.spanning .constDeclaration (const :: specs))

def varDeclaration : Rule Tree := do
  let var ← keyword "var"
  let specs ←
    if ← seesSymbol 0 "(" then
      .spanning .varSpecList <$> between "(" ")" (eachTerminated (varSpec g))
    else varSpec g
  pure (.spanning .varDeclaration [var, specs])

/-- What a type name is declared to be: a type of its own or another name for one. In front of a
bracket, an array type is preferred to type parameters. -/
def typeSpec : Rule Tree := do
  let id ← name .typeIdentifier
  let definition (params : List Tree) : Rule Tree := do
    let type ← g .type
    pure (.spanning .typeSpec (id.withField .name :: params ++ [type.withField .type]))
  let synonym (params : List Tree) : Rule Tree := do
    let eq ← symbol "="
    let type ← g .type
    pure (.spanning .typeAlias (id.withField .name :: params ++ [eq, type.withField .type]))
  synonym [] <|> definition [] <|> do
    let params ← typeParameters g
    let params := [params.withField .typeParameters]
    synonym params <|> definition params

def typeDeclaration : Rule Tree := do
  let type ← keyword "type"
  let specs ← if ← seesSymbol 0 "(" then between "(" ")" (terminated (typeSpec g))
    else pure [← typeSpec g]
  pure (.spanning .typeDeclaration (type :: specs))

def packageClause : Rule Tree := do
  let package ← keyword "package"
  pure (.spanning .packageClause [package, ← name .packageIdentifier])

def importSpec : Rule Tree := do
  let givenName : Rule Tree := do
    if ← seesSymbol 0 "." then (·.withKind .dot) <$> symbol "."
    else if ← sees 0 (·.text == "_") then name .blankIdentifier
    else name .packageIdentifier
  let id ← optional givenName
  let path ← stringLiteral
  pure (.spanning .importSpec ((id.map (·.withField .name)).toList ++ [path.withField .path]))

def importDeclaration : Rule Tree := do
  let import_ ← keyword "import"
  let specs ←
    if ← seesSymbol 0 "(" then .spanning .importSpecList <$> between "(" ")" (terminated importSpec)
    else importSpec
  pure (.spanning .importDeclaration [import_, specs])

/-- The body of a declaration, which may be missing. -/
def optionalBody : Rule (List Tree) := do
  if ← seesSymbol 0 "\x7b" then pure [(← g .block).withField .body] else pure []

def functionDeclaration : Rule Tree := do
  let func ← keyword "func"
  let id ← name .identifier
  let params ← if ← seesSymbol 0 "[" then some <$> typeParameters g else pure none
  let sig ← signature g
  let body ← optionalBody g
  pure (.spanning .functionDeclaration
    (func :: id.withField .name :: (params.map (·.withField .typeParameters)).toList ++ sig ++ body))

def methodDeclaration : Rule Tree := do
  let func ← keyword "func"
  let receiver ← g .parameters
  let id ← name .fieldIdentifier
  let sig ← signature g
  let body ← optionalBody g
  pure (.spanning .methodDeclaration
    (func :: receiver.withField .receiver :: id.withField .name :: sig ++ body))

end GoAtlas.Syntax.Grammar
