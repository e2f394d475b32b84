import GoAtlas.Check.Object
import GoAtlas.Syntax.Declaration
import GoAtlas.Syntax.Statement

namespace GoAtlas.Check

open Syntax

/-- An identifier with its place. -/
structure Ident where
  name : String
  start : Nat
  stop : Nat
  first : Point
  deriving DecidableEq, Repr

namespace Ident

def of (source : ByteArray) (t : Tree) : Ident :=
  ⟨t.text source, t.start, t.stop, t.span.first⟩

end Ident

/-- A single thing a tree does with names. -/
inductive Action where
  /-- A name is used; a soft use may denote nothing. -/
  | use (name : Ident) (soft : Bool)
  /-- A name is declared in the innermost scope. -/
  | declare (name : Ident) (kind : ObjectKind) (type : Option String)
  /-- A name is used if the innermost scope binds it and declared otherwise. -/
  | short (name : Ident) (type : Option String)
  /-- A member of what the operand denotes is used, if that is a package. -/
  | member (operand field : Ident)
  /-- A type of a package is used. -/
  | qualified (package name : Ident)
  /-- An expression has a type. -/
  | typed (start stop : Nat) (type : String)
  deriving DecidableEq, Repr

inductive Binding where
  | act (a : Action)
  | scope (body : List Binding)
  deriving Repr

/-- The type a literal has on its own. -/
def literalType? : Kind → Option String
  | .intLiteral => some "int"
  | .floatLiteral => some "float64"
  | .imaginaryLiteral => some "complex128"
  | .runeLiteral => some "rune"
  | .interpretedStringLiteral | .rawStringLiteral => some "string"
  | .trueLiteral | .falseLiteral => some "bool"
  | _ => none

/-- The type a variable takes from its value, where the value alone shows it. -/
def defaultType? (source : ByteArray) (t : Tree) : Option String :=
  match literalType? t.kind with
  | some type => some type
  | none =>
    match t.kind with
    | .binaryExpression =>
      let op := t.operator source
      if Tree.isComparison op || Tree.isLogical op then some "bool" else none
    | .unaryExpression => if t.operator source = "!" then some "bool" else none
    | .compositeLiteral => (t.part? .type).map (·.text source)
    | .funcLiteral => some "func"
    | _ => none

/-- The names of a value specification, each with its type: the one written, else that of the value
in its place. -/
def specNames (source : ByteArray) (spec : Tree) : List (Ident × Option String) :=
  let values := Tree.expressions? (spec.part? .value)
  (spec.parts .name).zipIdx.map fun (name, i) =>
    (Ident.of source name,
      match spec.part? .type with
      | some type => some (type.text source)
      | none => values[i]?.bind (defaultType? source))

/-- The types of the targets of a short declaration by the places they start at. -/
def targetTypes (source : ByteArray) (left right : List Tree) : List (Nat × Option String) :=
  if left.length = right.length then
    left.zipWith (fun l r => (l.start, defaultType? source r)) right
  else []

/-- The names of the children in the name part, declared with a kind and a type. -/
def declareNames (source : ByteArray) (kind : ObjectKind) (type : Option String) (t : Tree) :
    List Binding :=
  (t.parts .name).map fun n => .act (.declare (Ident.of source n) kind type)

/-- The names a generic receiver gives to its type parameters. -/
def receiverParameters (source : ByteArray) (generic : Tree) : List Binding :=
  let arguments := ((generic.part? .typeArguments).map Tree.named).getD []
  let targets := arguments.map fun a =>
    if a.kind = .typeElem then a.named.head?.getD a else a
  (targets.filter (·.kind = .typeIdentifier)).map fun t =>
    .act (.declare (Ident.of source t) .type none)

/-- How a node is taken up by the one above it. -/
inductive Role where
  | plain
  /-- A declaration at the top level, whose names are bound already. -/
  | topLevel
  | function
  | typeParameters
  | parameters
  | parameter
  | receivers
  | receiver
  | receiverType
  | body
  | typeSpec
  /-- A value specification, of which only types and values are taken up. -/
  | valueUses
  /-- A value specification or list of them that declares names of a kind. -/
  | valueSpec (kind : ObjectKind)
  /-- Targets of a short declaration with their types. -/
  | shortTargets (types : List (Nat × Option String))
  /-- Targets that are declared without a type. -/
  | freshTargets
  /-- A clause that declares the alias of a type switch. -/
  | clause (aliases : List Ident)
  | key
  | fieldKey

namespace Role

/-- Takes up the children in a part. -/
def inPart (f : Field) (role : Role) (t : Tree) : Option Role :=
  if t.field = some f then some role else none

/-- Takes up all children but punctuation. -/
def ofNamed (role : Role) (t : Tree) : Option Role :=
  if t.kind.isNamed then some role else none

/-- Takes up the named children that pass a test. -/
def ofNamedIf (test : Tree → Bool) (role : Role) (t : Tree) : Option Role :=
  if t.kind.isNamed && test t then some role else none

/-- Takes up value specifications, those of lists among them. -/
def ofSpecs (kind : Kind) (role : Role) (t : Tree) : Option Role :=
  if t.kind = kind || t.kind = .varSpecList then some role else none

end Role

/-- The type an expression shows by itself: that of a literal, or the truth value of an operator. -/
def ownType (source : ByteArray) (t : Tree) : List Binding :=
  match literalType? t.kind with
  | some type => [.act (.typed t.start t.stop ("untyped " ++ type))]
  | none =>
    if t.kind = .binaryExpression
        && (Tree.isComparison (t.operator source) || Tree.isLogical (t.operator source)) then
      [.act (.typed t.start t.stop "untyped bool")]
    else []

/-- A selector whose operand is a plain name may choose a member of a package. -/
def memberUse (source : ByteArray) (t : Tree) : List Binding :=
  match t.part? .operand, t.part? .field with
  | some operand, some field =>
    if operand.kind = .identifier then
      [.act (.member (Ident.of source operand) (Ident.of source field))]
    else []
  | _, _ => []

def qualifiedUse (source : ByteArray) (t : Tree) : List Binding :=
  match t.part? .package, t.part? .name with
  | some package, some name =>
    [.act (.qualified (Ident.of source package) (Ident.of source name))]
  | _, _ => []

/-- The type of a parameter, as written and marked when it is variadic. -/
def parameterType (source : ByteArray) (t : Tree) : Option String :=
  (t.part? .type).map fun type =>
    if t.kind = .variadicParameterDeclaration then "..." ++ type.text source else type.text source

namespace Role

/-- The role in which a node is in fact taken up, given its kind. -/
def settle (t : Tree) : Role → Role
  | .plain => if t.kind = .funcLiteral then .function else .plain
  | .topLevel => if t.kind.isFunction then .function else .topLevel
  | .parameters =>
    if t.kind = .parameterList then .parameters else settlePlain t
  | .receiverType =>
    match t.kind with
    | .pointerType | .parenthesizedType | .genericType => .receiverType
    | _ => settlePlain t
  | .shortTargets types =>
    match t.kind with
    | .expressionList | .identifier => .shortTargets types
    | _ => settlePlain t
  | .freshTargets =>
    match t.kind with
    | .expressionList | .identifier => .freshTargets
    | _ => settlePlain t
  | .key =>
    if t.kind = .literalElement && !t.named.isEmpty then .key
    else if t.kind = .identifier then .fieldKey
    else settlePlain t
  | .fieldKey => if t.kind = .identifier then .fieldKey else settlePlain t
  | role => role
where
  /-- A plain node, which may be a function. -/
  settlePlain (t : Tree) : Role := if t.kind = .funcLiteral then .function else .plain

end Role

mutual
/-- The bindings of a node in a role. -/
def bindings (source : ByteArray) (role : Role) : Tree → List Binding
  | .node k f s cs =>
    let t : Tree := .node k f s cs
    match role.settle t with
    | .plain =>
      match k with
      | .comment | .fieldIdentifier | .importDeclaration | .labelName | .packageClause => []
      | .block | .ifStatement | .forStatement | .expressionSwitchStatement | .selectStatement
      | .expressionCase | .defaultCase | .communicationCase | .typeCase =>
        [.scope (bindingsOf source (Role.ofNamed .plain) cs)]
      | .shortVarDeclaration =>
        let types := targetTypes source (Tree.expressions? (t.part? .left))
          (Tree.expressions? (t.part? .right))
        bindingsOf source (Role.inPart .right .plain) cs
          ++ bindingsOf source (Role.inPart .left (.shortTargets types)) cs
      | .varDeclaration => bindingsOf source (Role.ofSpecs .varSpec (.valueSpec .var)) cs
      | .constDeclaration => bindingsOf source (Role.ofSpecs .constSpec (.valueSpec .const)) cs
      | .typeDeclaration =>
        (t.typeSpecs.filterMap (·.part? .name)).map
            (fun n => .act (.declare (Ident.of source n) .type none))
          ++ bindingsOf source (Role.ofNamedIf Tree.isTypeSpec .typeSpec) cs
      | .typeSwitchStatement =>
        let aliases := (Tree.expressions? (t.part? .switchAlias)).filter (·.kind = .identifier)
        [.scope (bindingsOf source (Role.inPart .initializer .plain) cs
          ++ bindingsOf source (Role.inPart .value .plain) cs
          ++ bindingsOf source
            (Role.ofNamedIf Tree.isClause (.clause (aliases.map (Ident.of source)))) cs)]
      | .rangeClause | .receiveStatement =>
        bindingsOf source (Role.inPart .right .plain) cs
          ++ bindingsOf source
            (Role.inPart .left (if t.hasToken ":=" then .freshTargets else .plain)) cs
      | .parameterDeclaration | .variadicParameterDeclaration =>
        bindingsOf source (Role.inPart .type .plain) cs
      | .keyedElement => bindingsOfFirst source .key cs ++ bindingsOfRest source cs
      | .selectorExpression =>
        bindingsOf source (Role.inPart .operand .plain) cs ++ memberUse source t
      | .qualifiedType => qualifiedUse source t
      | .identifier | .typeIdentifier => [.act (.use (Ident.of source t) false)]
      | _ => ownType source t ++ bindingsOf source (Role.ofNamed .plain) cs
    | .topLevel =>
      match k with
      | .typeDeclaration => bindingsOf source (Role.ofNamedIf Tree.isTypeSpec .typeSpec) cs
      | .varDeclaration => bindingsOf source (Role.ofSpecs .varSpec .valueUses) cs
      | .constDeclaration => bindingsOf source (Role.ofSpecs .constSpec .valueUses) cs
      | _ => []
    | .function =>
      [.scope (bindingsOf source (Role.inPart .typeParameters .typeParameters) cs
        ++ (if k = .methodDeclaration then
            bindingsOf source (Role.inPart .receiver .receivers) cs else [])
        ++ bindingsOf source (Role.inPart .parameters .parameters) cs
        ++ bindingsOf source (Role.inPart .result .parameters) cs
        ++ bindingsOf source (Role.inPart .body .body) cs)]
    | .typeParameters =>
      (t.named.filter (·.kind = .typeParameterDeclaration)).flatMap
          (declareNames source .type none)
        ++ bindingsOf source
          (Role.ofNamedIf (·.kind = .typeParameterDeclaration) .valueUses) cs
    | .parameters => bindingsOf source (Role.ofNamedIf Tree.isParameter .parameter) cs
    | .parameter =>
      bindingsOf source (Role.inPart .type .plain) cs
        ++ declareNames source .var (parameterType source t) t
    | .receivers =>
      bindingsOf source (Role.ofNamedIf (·.kind = .parameterDeclaration) .receiver) cs
    | .receiver =>
      bindingsOf source (Role.inPart .type .receiverType) cs
        ++ declareNames source .var (some (Tree.text? source (t.part? .type))) t
    | .receiverType =>
      if k = .genericType then
        bindingsOf source (Role.inPart .type .plain) cs ++ receiverParameters source t
      else bindingsOfFirst source .receiverType cs
    | .body => bindingsOf source (Role.ofNamed .plain) cs
    | .typeSpec =>
      [.scope (bindingsOf source (Role.inPart .typeParameters .typeParameters) cs
        ++ bindingsOf source (Role.inPart .type .plain) cs)]
    | .valueUses =>
      if k = .varSpecList then bindingsOf source (Role.ofSpecs .varSpec .valueUses) cs
      else
        bindingsOf source (Role.inPart .type .plain) cs
          ++ bindingsOf source (Role.inPart .value .plain) cs
    | .valueSpec kind =>
      if k = .varSpecList then bindingsOf source (Role.ofSpecs .varSpec (.valueSpec kind)) cs
      else
        bindingsOf source (Role.inPart .type .plain) cs
          ++ bindingsOf source (Role.inPart .value .plain) cs
          ++ (specNames source t).map fun (n, type) => .act (.declare n kind type)
    | .shortTargets types =>
      if k = .expressionList then bindingsOf source (Role.ofNamed (.shortTargets types)) cs
      else [.act (.short (Ident.of source t) (types.lookup s.start).join)]
    | .freshTargets =>
      if k = .expressionList then bindingsOf source (Role.ofNamed .freshTargets) cs
      else [.act (.declare (Ident.of source t) .var none)]
    | .clause aliases =>
      [.scope (aliases.map (fun a => .act (.declare a .var none))
        ++ bindingsOf source (Role.ofNamed .plain) cs)]
    | .key => bindingsOfFirst source .fieldKey cs
    | .fieldKey => [.act (.use (Ident.of source t) true)]

/-- The bindings of the nodes that are taken up, in their order. -/
def bindingsOf (source : ByteArray) (select : Tree → Option Role) : List Tree → List Binding
  | [] => []
  | t :: ts =>
    (match select t with
      | some role => bindings source role t
      | none => [])
    ++ bindingsOf source select ts

/-- The bindings of the first named node in a role. -/
def bindingsOfFirst (source : ByteArray) (role : Role) : List Tree → List Binding
  | [] => []
  | t :: ts => if t.kind.isNamed then bindings source role t else bindingsOfFirst source role ts

/-- The bindings of all named nodes but the first. -/
def bindingsOfRest (source : ByteArray) : List Tree → List Binding
  | [] => []
  | t :: ts =>
    if t.kind.isNamed then bindingsOf source (Role.ofNamed .plain) ts else bindingsOfRest source ts
end

/-- The bindings of the declarations of a file. -/
def fileBindings (source : ByteArray) (root : Tree) : List Binding :=
  root.named.flatMap (bindings source .topLevel)

end GoAtlas.Check
