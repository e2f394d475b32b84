import GoAtlas.Dict
import GoAtlas.Json.Value

namespace GoAtlas.Check

inductive ObjectKind where
  | package
  | func
  | method
  | type
  | var
  | const
  | builtin
  | nil
  | external
  deriving DecidableEq, Repr, Inhabited

namespace ObjectKind

def text : ObjectKind → String
  | .package => "package"
  | .func => "func"
  | .method => "method"
  | .type => "type"
  | .var => "var"
  | .const => "const"
  | .builtin => "builtin"
  | .nil => "nil"
  | .external => "external"

def all : List ObjectKind :=
  [.package, .func, .method, .type, .var, .const, .builtin, .nil, .external]

def ofText? (s : String) : Option ObjectKind :=
  all.find? (·.text == s)

end ObjectKind

/-- A byte of a file. -/
structure Spot where
  file : String
  offset : Nat
  deriving DecidableEq, Repr

/-- What a name denotes; `spot` is the place of its declaration, if it has one in the workspace. -/
structure Object where
  name : String
  kind : ObjectKind
  package : String := ""
  spot : Option Spot := none
  type : Option String := none
  methods : List String := []
  deriving DecidableEq, Repr, Inhabited

namespace Object

def toJson (o : Object) : Json :=
  .obj [("name", .str o.name), ("kind", .str o.kind.text), ("package", .str o.package),
    ("file", .ofOption (o.spot.map (·.file))),
    ("offset", .int ((o.spot.map fun s => (s.offset : Int)).getD (-1))),
    ("type", .ofOption o.type),
    ("methods", .strs (o.methods.mergeSort fun a b => decide (a ≤ b))),
    ("declared", .bool o.spot.isSome)]

end Object

/-- The names bound in one scope. -/
abbrev Frame := Dict String Object

/-- Nested scopes, the innermost first. -/
abbrev Scope := List Frame

namespace Scope

/-- The object a name denotes: the one of the innermost scope that binds it. -/
def lookup (s : Scope) (name : String) : Option Object :=
  s.findSome? (List.lookup name ·)

/-- Binds a name in the innermost scope, whatever it denoted there before. -/
def bind (o : Object) : Scope → Scope
  | [] => [[(o.name, o)]]
  | f :: s => f.put o.name o :: s

/-- Binds a name in the innermost scope unless it is bound there; answers the object found. -/
def insert (o : Object) : Scope → Option Object × Scope
  | [] => (none, [[(o.name, o)]])
  | f :: s =>
    match f.lookup o.name with
    | some found => (some found, f :: s)
    | none => (none, (f ++ [(o.name, o)]) :: s)

end Scope

/-- Types known everywhere. -/
def universeTypes : List String :=
  ["any", "bool", "byte", "comparable", "complex64", "complex128", "error", "float32", "float64",
    "int", "int8", "int16", "int32", "int64", "rune", "string", "uint", "uint8", "uint16", "uint32",
    "uint64", "uintptr"]

/-- Functions known everywhere. -/
def universeFunctions : List String :=
  ["append", "cap", "clear", "close", "complex", "copy", "delete", "imag", "len", "make", "max",
    "min", "new", "panic", "print", "println", "real", "recover"]

/-- The outermost scope of every package. -/
def universeFrame : Frame :=
  universeTypes.map (fun n => (n, { name := n, kind := .type, type := some n }))
    ++ [("true", { name := "true", kind := .const, type := some "untyped bool" }),
      ("false", { name := "false", kind := .const, type := some "untyped bool" }),
      ("iota", { name := "iota", kind := .const, type := some "untyped int" }),
      ("nil", { name := "nil", kind := .nil, type := some "untyped nil" })]
    ++ universeFunctions.map (fun n => (n, { name := n, kind := .builtin }))

/-- A package as its importers see it. It is not complete while its check goes on or after a failed
check; an opaque one has every member asked for. -/
structure Handle where
  path : String
  name : String
  names : Frame := []
  complete : Bool := false
  isOpaque : Bool := false
  deriving DecidableEq, Repr, Inhabited

namespace Handle

/-- The handle of a package outside the workspace. -/
def outside (path name : String) : Handle :=
  { path, name, complete := true, isOpaque := true }

def member? (h : Handle) (name : String) : Option Object :=
  if h.isOpaque then some { name, kind := .external, package := h.path } else h.names.lookup name

def toJson (h : Handle) : Json :=
  .obj [("path", .str h.path), ("name", .str h.name), ("complete", .bool h.complete),
    ("opaque", .bool h.isOpaque),
    ("names", .strs ((h.names.map (·.1)).mergeSort fun a b => decide (a ≤ b)))]

end Handle

/-- A range of bytes of a file. -/
structure Extent where
  file : String
  start : Nat
  stop : Nat
  deriving DecidableEq, Repr

/-- What a check finds out: the objects declared and used at identifiers, and the types of
expressions. -/
structure TypeInfo where
  defs : Dict Spot Object := []
  uses : Dict Spot Object := []
  types : Dict Extent String := []
  deriving DecidableEq, Repr, Inhabited

namespace TypeInfo

def sortedBySpot (d : Dict Spot Object) : Dict Spot Object :=
  d.mergeSort fun a b =>
    decide (a.1.file < b.1.file) || (a.1.file == b.1.file && decide (a.1.offset ≤ b.1.offset))

def sortedByExtent (d : Dict Extent String) : Dict Extent String :=
  d.mergeSort fun a b =>
    decide (a.1.file < b.1.file)
      || (a.1.file == b.1.file
        && (decide (a.1.start < b.1.start)
          || (a.1.start == b.1.start && decide (a.1.stop ≤ b.1.stop))))

def defJson (spot : Spot) (o : Object) : Json :=
  .arr [.str spot.file, .int spot.offset, .str o.name, .str o.kind.text, .ofOption o.type,
    .strs (o.methods.mergeSort fun a b => decide (a ≤ b))]

def useJson (spot : Spot) (o : Object) : Json :=
  .arr [.str spot.file, .int spot.offset, .str o.name, .str o.kind.text, .str o.package,
    .ofOption (o.spot.map (·.file)), .int ((o.spot.map fun s => (s.offset : Int)).getD (-1)),
    .ofOption o.type]

def typeJson (e : Extent) (type : String) : Json :=
  .arr [.str e.file, .int e.start, .int e.stop, .str type]

def toJson (i : TypeInfo) : Json :=
  .obj [("defs", .arr ((sortedBySpot i.defs).map fun (s, o) => defJson s o)),
    ("uses", .arr ((sortedBySpot i.uses).map fun (s, o) => useJson s o)),
    ("types", .arr ((sortedByExtent i.types).map fun (e, t) => typeJson e t))]

end TypeInfo

end GoAtlas.Check
