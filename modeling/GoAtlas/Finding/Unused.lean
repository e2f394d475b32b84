import GoAtlas.Session

namespace GoAtlas.Finding

open Reference

structure UnusedSymbol where
  symbol : Symbol
  deriving DecidableEq, Repr

namespace UnusedSymbol

/-- What is looked for: exported symbols too, and those of test files. -/
structure Options where
  exported : Bool := false
  tests : Bool := false
  deriving DecidableEq, Repr

/-- Symbols that are called from outside. -/
def isEntryPoint (s : Symbol) : Bool :=
  s.name = "init" || s.name = "main"
    || (SourceFile.isTestPath s.file
      && ["Test", "Benchmark", "Example", "Fuzz"].any (Text.beginsWith s.name))

def isSkipped (o : Options) (s : Symbol) : Bool :=
  isEntryPoint s || (s.exported && !o.exported)

/-- By file, line and column. -/
def before (a b : Symbol) : Bool :=
  decide (a.file < b.file)
    || (a.file == b.file
      && (decide (a.line < b.line) || (a.line == b.line && decide (a.column ≤ b.column))))

/-- The symbols of a table that are not among the names used. -/
def inTable (o : Options) (referenced : List String) (table : SymbolTable) : List UnusedSymbol :=
  ((table.symbols.filter fun s => !isSkipped o s && !referenced.contains s.name).mergeSort
    before).map UnusedSymbol.mk

/-- The names used in the files of a package. -/
def namesUsedIn (p : Package) : List String :=
  (Index.ofFiles (p.allFiles true)).referenced

/-- The unused symbols of a package, given the names used; without them those used in the package
itself count. A symbol table that has been made is used as it is. -/
def inPackage (o : Options) (referenced : Option (List String)) (p : Package) :
    StateM Session (List UnusedSymbol) := do
  let table ← Session.tableWith p o.tests
  pure (inTable o (referenced.getD (namesUsedIn p)) table)

def inFile (o : Options) (referenced : Option (List String)) (p : Package) (f : SourceFile) :
    StateM Session (List UnusedSymbol) := do
  pure ((← inPackage o referenced p).filter (·.symbol.file == f.path))

/-- The unused symbols of all packages, by an index that is made if none is given. -/
def inWorkspace (o : Options) (index? : Option Index) : StateM Session (List UnusedSymbol) := do
  let index ←
    match index? with
    | some i => pure i
    | none => Session.freshIndex
  let found ← (← get).workspace.packages.mapM (inPackage o (some index.referenced))
  let unused := found.flatten
  modify (·.emit ⟨.debug, "analyzers.unused",
    "unused analysis: " ++ toString unused.length ++ " symbols reported"⟩)
  pure unused

def toJson (u : UnusedSymbol) : Json :=
  .obj [("schema_version", .int schemaVersion), ("symbol", u.symbol.toJson),
    ("reason", .str "No references found"), ("safe_to_delete", .bool !u.symbol.exported)]

end UnusedSymbol

end GoAtlas.Finding
