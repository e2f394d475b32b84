import GoAtlas.Finding.Place
import GoAtlas.Syntax.Statement

namespace GoAtlas.Finding

open Syntax

/-- Whether a function takes a context. -/
def takesContext (source : ByteArray) (t : Tree) : Bool :=
  ((((t.part? .parameters).map Tree.named).getD []).filter Tree.isParameter).any fun p =>
    Tree.text? source (p.part? .type) = "context.Context"

/-- The root context a call makes. -/
def rootContextCall? (source : ByteArray) (t : Tree) : Option String :=
  if t.kind != .callExpression then none
  else
    match (t.part? .function).bind (Tree.selection? source) with
    | some (package, name) =>
      if package = "context" && (name = "TODO" || name = "Background") then
        some ("context." ++ name ++ "()")
      else none
    | none => none

/-- The root contexts a body makes, in the order of its walk. -/
def rootContextCalls (source : ByteArray) (body : Tree) : List String :=
  body.walk.filterMap (rootContextCall? source)

structure RootContext where
  location : Location
  signature : String
  calls : List String
  deriving DecidableEq, Repr

namespace RootContext

/-- Functions in which root contexts belong. -/
def isEntryPoint (name : String) : Bool :=
  name = "main" || name = "init"

def inFile (f : SourceFile) : List RootContext :=
  (bodies f).filterMap fun (name, t, body) =>
    let calls := rootContextCalls f.content body
    if isEntryPoint name || takesContext f.content t || calls.isEmpty then none
    else
      some ⟨Location.of f name t.start,
        Text.strip (Text.Utf8.decode (f.content.extract t.start body.start)), calls⟩

def toJson (r : RootContext) : Json :=
  .obj (r.location.fields ++ [("signature", .str r.signature), ("context_calls", .strs r.calls)])

end RootContext

end GoAtlas.Finding
