import GoAtlas.Check.Demand
import GoAtlas.Reference.Index
import GoAtlas.Symbol.Table

namespace GoAtlas

open Check Reference

/-- A use of a symbol. -/
structure Use where
  symbol : Symbol
  file : String
  line : Int
  column : Int
  offset : Int
  context : Context
  deriving DecidableEq, Repr

/-- A workspace and what is known of it; there is an index for answers that follow types and one for
answers by name only. -/
structure Session where
  workspace : Workspace
  tables : Dict String SymbolTable := []
  checks : Checks := {}
  typedIndex : Option Index := none
  plainIndex : Option Index := none
  log : List LogRecord := []

/-- A question to a session, which may add to what is known, and may fail. -/
abbrev Query := ExceptT Failure (StateM Session)

namespace Session

def emit (r : LogRecord) (s : Session) : Session :=
  { s with log := s.log ++ [r] }

/-- Works on the checks and takes over what they have logged. -/
def onChecks {α : Type} (f : Checks → α × Checks) : StateM Session α := fun s =>
  let (a, c) := f s.checks
  (a, { s with checks := { c with log := [] }, log := s.log ++ c.log })

def ensureChecked (p : Package) : StateM Session Unit := do
  let s ← get
  onChecks fun c => ((), c.ensure s.workspace p)

/-- Follows an import path. -/
def importPath (path : String) : Query Handle := fun s =>
  onChecks (Checks.importPath s.workspace path) s

/-- Builds the symbol table of a package anew. -/
def buildTable (p : Package) (tests : Bool) : StateM Session SymbolTable := fun s =>
  let table := SymbolTable.ofPackage p tests
  (table, { s with tables := s.tables.put p.path table })

/-- Builds the symbol tables of all packages anew. -/
def buildTables (tests : Bool) : StateM Session (List SymbolTable) := do
  (← get).workspace.packages.mapM (buildTable · tests)

/-- The symbol table of a package, built if there is none yet. -/
def tableWith (p : Package) (tests : Bool) : StateM Session SymbolTable := fun s =>
  match s.tables.lookup p.path with
  | some table => (table, s)
  | none => buildTable p tests s

def table (p : Package) : StateM Session SymbolTable :=
  tableWith p false

/-- The failure to find a symbol. -/
def notFound (file message : String) : Failure :=
  { kind := .symbolNotFound, message, file := some file }

/-- The symbol a name, or a receiver and a method name, stands for in a table. -/
def resolveIn (p : Package) (table : SymbolTable) (name : String) : Except Failure Symbol :=
  match Text.cut? "." name with
  | some (receiver, method) =>
    match ((table.methods.lookup receiver).getD []).find? (·.name == method) with
    | some s => .ok s
    | none => .error (notFound p.path ("method " ++ name ++ " not found in package " ++ p.name))
  | none =>
    match table.find? name, table.methodsNamed name with
    | some s, _ => .ok s
    | none, [s] => .ok s
    | none, [] =>
      .error (notFound p.path ("symbol " ++ name ++ " not found in package " ++ p.name))
    | none, candidates =>
      let names := (candidates.map (·.qualifiedName)).mergeSort fun a b => decide (a ≤ b)
      .error (notFound p.path ("method name " ++ name ++ " is ambiguous in package " ++ p.name
        ++ "; use one of: " ++ ", ".intercalate names))

def resolve (p : Package) (name : String) : Query Symbol := do
  let table ← table p
  liftExcept (resolveIn p table name)
where
  /-- An answer or failure that leaves the session as it is. -/
  liftExcept {α : Type} (e : Except Failure α) : Query α := fun s => (e, s)

/-- A new index of all files. -/
def freshIndex : StateM Session Index := fun s =>
  let files := s.workspace.files true
  let index := Index.ofFiles files
  (index, s.emit ⟨.info, "resolve.references",
    "reference index built: " ++ toString index.names.length ++ " names across "
      ++ toString files.length ++ " files"⟩)

/-- A new index, which is kept. -/
def rebuildIndex (types : Bool) : StateM Session Index := do
  let index ← freshIndex
  modify fun s =>
    if types then { s with typedIndex := some index } else { s with plainIndex := some index }
  pure index

def index (types : Bool) : StateM Session Index := fun s =>
  match if types then s.typedIndex else s.plainIndex with
  | some i => (i, s)
  | none => rebuildIndex types s

/-- The offset of a symbol's name in its file, if its position is known. -/
def offsetOf? (ws : Workspace) (symbol : Symbol) : Option Nat :=
  (ws.registry.slot? symbol.position).map fun slot => (symbol.position - slot.base).toNat

/-- Whether an object is the one a symbol declares. -/
def isDeclaredBy (ws : Workspace) (symbol : Symbol) (o : Object) : Bool :=
  match o.spot, offsetOf? ws symbol with
  | some spot, some offset => spot.file = symbol.file && spot.offset = offset
  | _, _ => false

/-- The object type information gives for an occurrence. -/
def objectAt? (info : Option TypeInfo) (e : Entry) : Option Object :=
  info.bind fun i => i.uses.lookup ⟨e.file, e.offset.toNat⟩

/-- The information on the package of a file, once it has been checked. -/
def infoOfFile (file : String) : StateM Session (Option TypeInfo) := do
  match (← get).workspace.packageOfFile? file with
  | none => pure none
  | some p =>
    ensureChecked p
    pure ((← get).checks.info? p)

/-- The uses of a symbol. Where types are followed, an occurrence known to denote something else is
none. -/
def references (types : Bool) (symbol : Symbol) : StateM Session (List Use) := do
  let entries := (← index types).uses symbol.name
  let kept ← entries.filterM fun e => do
    if types then
      match objectAt? (← infoOfFile e.file) e with
      | some o => pure (isDeclaredBy (← get).workspace symbol o)
      | none => pure true
    else pure true
  pure (kept.map fun e => ⟨symbol, e.file, e.line, e.column, e.offset, e.context⟩)

/-- The symbol that declares an object. -/
def symbolOfObject? (o : Object) : List Package → StateM Session (Option Symbol)
  | [] => pure none
  | p :: ps => do
    if p.key = o.package then
      let ws := (← get).workspace
      let found := (← table p).symbols.find? fun s => isDeclaredBy ws s o
      if found.isSome then return found
    symbolOfObject? o ps

/-- The symbol type information gives for an identifier, as far as there is any. -/
def knownDefinition? (p : Package) (file : String) (start : Nat) :
    StateM Session (Option Symbol) := do
  let s ← get
  match s.checks.info? p with
  | none => pure none
  | some info =>
    match (info.uses.lookup ⟨file, start⟩).or (info.defs.lookup ⟨file, start⟩) with
    | some o => if o.spot.isSome then symbolOfObject? o s.workspace.packages else pure none
    | none => pure none

/-- The symbol type information gives for an identifier, once its package has been checked. -/
def typedDefinition? (p : Package) (file : String) (start : Nat) :
    StateM Session (Option Symbol) := do
  ensureChecked p
  knownDefinition? p file start

/-- The package a file imports under a name, if it is in the workspace. -/
def importedPackage? (ws : Workspace) (f : SourceFile) (name : String) : Option Package :=
  (f.imports.find? (·.localName == name)).bind fun i => ws.packageForImport? i.path

/-- The package in which an identifier is looked up by name: the one its qualifier stands for, or
that of its file. -/
def packageOfSite (ws : Workspace) (p : Package) (f : SourceFile) (site : Site) : Package :=
  match (site.classify f.content).2 with
  | some q => if q = "" then p else (importedPackage? ws f q).getD p
  | none => p

/-- The symbol the identifier at an offset stands for. `real` is the path with links resolved, which
is tried if the path itself is not known. -/
def definition (types : Bool) (path real : String) (offset : Int) : Query Symbol := do
  let ws := (← get).workspace
  match (ws.file? path).or (ws.file? real) with
  | none => throw (notFound path "file not found in workspace")
  | some f =>
    match ws.packageOfFile? f.path, identifierAt? f.tree offset with
    | none, _ => throw (notFound path "file not found in workspace")
    | some _, none => throw (notFound path ("no identifier at offset " ++ toString offset))
    | some p, some site =>
      let found ← if types then typedDefinition? p f.path site.node.start else pure none
      match found with
      | some symbol => pure symbol
      | none => resolve (packageOfSite ws p f site) (f.text site.node)

end Session

end GoAtlas
