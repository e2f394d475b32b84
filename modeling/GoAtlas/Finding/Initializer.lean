import GoAtlas.Finding.Place
import GoAtlas.Syntax.Statement

namespace GoAtlas.Finding

open Syntax

structure Initializer where
  location : Location
  targets : List String
  expression : String
  snippet : String
  deriving DecidableEq, Repr

namespace Initializer

/-- The initializer of a conditional statement, if it declares variables. -/
def of? (f : SourceFile) (function : String) (t : Tree) : Option Initializer :=
  ((t.part? .initializer).filter (·.kind = .shortVarDeclaration)).map fun i =>
    let location := Location.of f function t.start
    { location
      targets := (Tree.expressions? (i.part? .left)).map f.text
      expression := Tree.text? f.content (i.part? .right)
      snippet := f.lineText location.line }

def inFile (f : SourceFile) : List Initializer :=
  (bodies f).flatMap fun (name, _, body) =>
    (body.walk.filter (·.kind = .ifStatement)).filterMap (of? f name)

def toJson (i : Initializer) : Json :=
  .obj (i.location.fields ++ [("variables", .strs i.targets), ("expression", .str i.expression),
    ("snippet", .str i.snippet)])

end Initializer

end GoAtlas.Finding
