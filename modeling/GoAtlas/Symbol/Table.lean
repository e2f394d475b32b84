import GoAtlas.Symbol.Basic
import GoAtlas.Workspace.Model

namespace GoAtlas

open Syntax

structure SymbolTable where
  functions : Dict String Symbol := []
  types : Dict String Symbol := []
  vars : Dict String Symbol := []
  constants : Dict String Symbol := []
  methods : Dict String (List Symbol) := []

namespace Symbol

/-- A callable with the names of its parameters. -/
def signatureOf (source : ByteArray) (name : String) (t : Tree) : String :=
  let parameters := ((t.part? .parameters).map Tree.named).getD []
  let names := (parameters.filter Tree.isParameter).flatMap fun p =>
    (p.parts .name).map (·.text source)
  name ++ "(" ++ ", ".intercalate names ++ ")"

/-- The symbol named by a node and declared by another, which holds it. -/
def ofNodes (f : SourceFile) (package : String) (name declaration : Tree) (kind : SymbolKind)
    (signature receiver : Option String) : Symbol :=
  let place := f.place name.start
  { name := f.text name, kind, package, file := f.path
    position := f.position name.start, stop := f.position declaration.stop
    line := place.line, column := place.column
    exported := Name.isExported (f.text name), signature, receiver }

/-- The symbol of a function or method. -/
def ofFunction? (f : SourceFile) (package : String) (t : Tree) : Option Symbol :=
  (t.part? .name).map fun name =>
    let signature := some (signatureOf f.content (f.text name) t)
    if t.kind = .methodDeclaration then
      let receiver := t.receiverName f.content
      ofNodes f package name t .method signature (if receiver = "" then none else some receiver)
    else ofNodes f package name t .function signature none

end Symbol

namespace SymbolTable

/-- Adds a symbol to a bucket unless it is blank or its name is taken. -/
def addTo (bucket : Dict String Symbol) (s : Symbol) : Dict String Symbol :=
  if s.name = "_" then bucket else bucket.addNew s.name s

def addMethod (receiver : String) (s : Symbol) (table : SymbolTable) : SymbolTable :=
  { table with methods := table.methods.gather receiver s }

def addFunction (f : SourceFile) (package : String) (t : Tree) (table : SymbolTable) :
    SymbolTable :=
  match Symbol.ofFunction? f package t with
  | none => table
  | some s =>
    if t.kind = .methodDeclaration then
      match s.receiver with
      | some r => table.addMethod r s
      | none => table
    else { table with functions := addTo table.functions s }

/-- The methods an interface type lists. -/
def interfaceMethods (f : SourceFile) (package receiver : String) (type : Tree) : List Symbol :=
  (type.named.filter (·.kind = .methodElem)).filterMap fun e =>
    (e.part? .name).map fun name =>
      Symbol.ofNodes f package name e .method
        (some (Symbol.signatureOf f.content (f.text name) e)) (some receiver)

def addType (f : SourceFile) (package : String) (table : SymbolTable) (spec : Tree) :
    SymbolTable :=
  match spec.part? .name with
  | none => table
  | some name =>
    let type? := (spec.part? .type).filter (·.kind = .interfaceType)
    let s := Symbol.ofNodes f package name spec
      (if type?.isSome then .interface else .type) none none
    if (table.types.lookup s.name).isSome then table
    else
      let methods := (type?.map (interfaceMethods f package s.name)).getD []
      methods.foldl (fun t m => t.addMethod s.name m)
        { table with types := addTo table.types s }

/-- The symbols of the names of a value specification. -/
def valueSymbols (f : SourceFile) (package : String) (kind : SymbolKind) (spec : Tree) :
    List Symbol :=
  (spec.parts .name).map fun name => Symbol.ofNodes f package name spec kind none none

def addDeclaration (f : SourceFile) (package : String) (table : SymbolTable) (t : Tree) :
    SymbolTable :=
  match t.kind with
  | .functionDeclaration | .methodDeclaration => table.addFunction f package t
  | .typeDeclaration => t.typeSpecs.foldl (addType f package) table
  | .varDeclaration =>
    { table with
      vars := ((t.specs .varSpec).flatMap (valueSymbols f package .variable)).foldl addTo
        table.vars }
  | .constDeclaration =>
    { table with
      constants := ((t.specs .constSpec).flatMap (valueSymbols f package .constant)).foldl addTo
        table.constants }
  | _ => table

def addFile (package : String) (table : SymbolTable) (f : SourceFile) : SymbolTable :=
  f.tree.named.foldl (addDeclaration f package) table

/-- The table of a package; test files come last, if at all. -/
def ofPackage (p : Package) (tests : Bool) : SymbolTable :=
  (p.allFiles tests).foldl (addFile p.key) {}

/-- All symbols: functions, types, variables, constants and then methods. -/
def symbols (table : SymbolTable) : List Symbol :=
  table.functions.map (·.2) ++ table.types.map (·.2) ++ table.vars.map (·.2)
    ++ table.constants.map (·.2) ++ table.methods.flatMap (·.2)

/-- The symbol of a name other than a method, functions first. -/
def find? (table : SymbolTable) (name : String) : Option Symbol :=
  [table.functions, table.types, table.vars, table.constants].findSome? (List.lookup name ·)

/-- The methods of all receivers that bear a name. -/
def methodsNamed (table : SymbolTable) (name : String) : List Symbol :=
  (table.methods.flatMap (·.2)).filter (·.name == name)

def toJson (table : SymbolTable) : Json :=
  let bucket (b : Dict String Symbol) : Json := .arr (b.map fun (_, s) => s.toJson)
  .obj [("functions", bucket table.functions), ("types", bucket table.types),
    ("variables", bucket table.vars), ("constants", bucket table.constants),
    ("methods", .arr (table.methods.map fun (r, ms) =>
      .arr [.str r, .arr (ms.map Symbol.toJson)]))]

end SymbolTable

end GoAtlas
