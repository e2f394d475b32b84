import GoAtlas.Json.Value
import GoAtlas.Loose.Value
import GoAtlas.Name
import GoAtlas.Report.Id

namespace GoAtlas

inductive SymbolKind where
  | function
  | method
  | type
  | interface
  | variable
  | constant
  | field
  deriving DecidableEq, Repr

namespace SymbolKind

def text : SymbolKind → String
  | .function => "function"
  | .method => "method"
  | .type => "type"
  | .interface => "interface"
  | .variable => "variable"
  | .constant => "constant"
  | .field => "field"

def choices : List (String × SymbolKind) :=
  [.function, .method, .type, .interface, .variable, .constant, .field].map fun k => (k.text, k)

end SymbolKind

/-- The version of every record written. -/
def schemaVersion : Int := 1

/-- A declaration; `position` is that of its name and `stop` the one after the whole of it. -/
structure Symbol where
  name : String
  kind : SymbolKind
  package : String
  file : String
  position : Int
  stop : Int
  line : Int
  column : Int
  exported : Bool
  signature : Option String := none
  receiver : Option String := none
  version : Int := schemaVersion
  deriving DecidableEq, Repr

namespace Symbol

/-- The name, behind the receiver's if there is one. -/
def qualifiedName (s : Symbol) : String :=
  match s.receiver with
  | some r => if r = "" then s.name else r ++ "." ++ s.name
  | none => s.name

def id (s : Symbol) (path : String) : String :=
  Report.symbolId path s.package s.qualifiedName s.line s.column

def toJson (s : Symbol) : Json :=
  .obj [("schema_version", .int s.version), ("name", .str s.name), ("kind", .str s.kind.text),
    ("package", .str s.package), ("file", .str s.file), ("position", .int s.position),
    ("end", .int s.stop), ("line", .int s.line), ("column", .int s.column),
    ("exported", .bool s.exported), ("signature", .ofOption s.signature),
    ("receiver", .ofOption s.receiver)]

/-- Reads a symbol from loosely typed fields; its flag must agree with its name. -/
def read (entries : List (String × Loose.Value)) : Except (List Loose.Issue) Symbol := do
  let fields : Loose.Reading Symbol :=
    ((((((((((((Loose.Reading.done Symbol.mk
      ).seq (Loose.field entries "name" none (·.toText))
      ).seq (Loose.field entries "kind" none (·.toChoice SymbolKind.choices))
      ).seq (Loose.field entries "package" none (·.toText))
      ).seq (Loose.field entries "file" none (·.toText))
      ).seq (Loose.field entries "position" none (·.toInt))
      ).seq (Loose.field entries "end" none (·.toInt))
      ).seq (Loose.field entries "line" none (·.toInt))
      ).seq (Loose.field entries "column" none (·.toInt))
      ).seq (Loose.field entries "exported" none (·.toBool))
      ).seq (Loose.field entries "signature" (some none) (·.toOptionalText))
      ).seq (Loose.field entries "receiver" (some none) (·.toOptionalText))
      ).seq (Loose.field entries "schema_version" (some schemaVersion) (·.toInt))
  let s ← fields.result
  if s.exported = Name.isExported s.name then .ok s else .error [⟨[], .inconsistent⟩]

end Symbol

end GoAtlas
