import GoAtlas.Name
import GoAtlas.Syntax.Tree

namespace GoAtlas.Syntax

/-- One import of a file. -/
structure Import where
  path : String
  givenName : Option String
  line : Nat
  deriving DecidableEq, Repr

namespace Import

/-- The name an import goes by in its file, if its package does not say otherwise. -/
def localName (i : Import) : String :=
  match i.givenName with
  | some a => if a = "" then Name.ofImportPath i.path else a
  | none => Name.ofImportPath i.path

end Import

namespace Tree

/-- The functions and methods at the top level of a file. -/
def functions (root : Tree) : List Tree :=
  root.named.filter (·.kind.isFunction)

def functionName (source : ByteArray) (t : Tree) : String :=
  text? source (t.part? .name)

/-- The specifications of a declaration, those of a parenthesised list among them. -/
def specs (kind : Kind) (t : Tree) : List Tree :=
  t.named.flatMap fun c =>
    if c.kind = kind then [c]
    else if c.kind = .varSpecList || c.kind = .importSpecList then
      c.named.filter (·.kind = kind)
    else []

/-- Whether a node declares a type. -/
def isTypeSpec (t : Tree) : Bool :=
  t.kind = .typeSpec || t.kind = .typeAlias

/-- The types a type declaration declares. -/
def typeSpecs (t : Tree) : List Tree :=
  t.named.filter isTypeSpec

/-- Whether a node declares parameters. -/
def isParameter (t : Tree) : Bool :=
  t.kind = .parameterDeclaration || t.kind = .variadicParameterDeclaration

mutual
/-- The type under pointers, parentheses and type arguments. -/
def baseType? : Tree → Option Tree
  | .node k f s cs =>
    match k with
    | .pointerType | .parenthesizedType => baseOfFirst? cs
    | .genericType => baseOfPart? cs
    | _ => some (.node k f s cs)

def baseOfFirst? : List Tree → Option Tree
  | [] => none
  | t :: ts => if t.kind.isNamed then baseType? t else baseOfFirst? ts

def baseOfPart? : List Tree → Option Tree
  | [] => none
  | t :: ts => if t.field = some .type then baseType? t else baseOfPart? ts
end

/-- The name of the type a method belongs to, or nothing. -/
def receiverName (source : ByteArray) (method : Tree) : String :=
  match (method.part? .receiver).bind fun r => r.named.find? (·.kind = .parameterDeclaration) with
  | some parameter => text? source ((parameter.part? .type).bind baseType?)
  | none => ""

/-- What stands between the quotes of a string literal. -/
def stringContent (literal : String) : String :=
  match literal.toList with
  | q :: r =>
    if (q = '"' || q = '\x60') && r.getLast? = some q then String.ofList r.dropLast else literal
  | [] => literal

def importOf? (source : ByteArray) (spec : Tree) : Option Import :=
  (spec.part? .path).map fun path =>
    { path := stringContent (path.text source)
      givenName := (spec.part? .name).map (·.text source)
      line := spec.span.first.row + 1 }

/-- The imports of a file in their order. -/
def imports (source : ByteArray) (root : Tree) : List Import :=
  (root.named.filter (·.kind = .importDeclaration)).flatMap fun d =>
    (d.specs .importSpec).filterMap (importOf? source)

/-- The name in the first package clause that has one. -/
def packageName (source : ByteArray) (root : Tree) : String :=
  let clauses := root.named.filter (·.kind = .packageClause)
  text? source (clauses.findSome? fun c => c.named.find? (·.kind = .packageIdentifier))

end Tree

end GoAtlas.Syntax
