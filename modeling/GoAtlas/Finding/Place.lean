import GoAtlas.Symbol.Basic
import GoAtlas.Workspace.Model

namespace GoAtlas.Finding

structure Location where
  file : String
  line : Int
  column : Int
  function : String
  deriving DecidableEq, Repr

namespace Location

/-- The place of a byte in a function. -/
def of (f : SourceFile) (function : String) (offset : Nat) : Location :=
  let place := f.place offset
  ⟨f.path, place.line, place.column, function⟩

/-- The fields every finding in a function has. -/
def fields (l : Location) : List (String × Json) :=
  [("schema_version", .int schemaVersion), ("file", .str l.file), ("line", .int l.line),
    ("column", .int l.column), ("function", .str l.function)]

end Location

/-- The functions of a file that have a body, with their names and bodies. -/
def bodies (f : SourceFile) : List (String × Syntax.Tree × Syntax.Tree) :=
  f.functions.filterMap fun t =>
    (t.part? .body).map fun body => (t.functionName f.content, t, body)

end GoAtlas.Finding
