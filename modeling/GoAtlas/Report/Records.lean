import GoAtlas.Config.Settings
import GoAtlas.Dependencies
import GoAtlas.Finding.Initializer
import GoAtlas.Finding.RootContext
import GoAtlas.Json.Lines
import GoAtlas.Report.Payload

namespace GoAtlas.Report

open Finding

/-- A record as it is reported, with one more field. -/
def withField (root key value : String) (record : Json) : Json :=
  match payload "/" root record with
  | .obj fields => .obj (fields ++ [(key, .str value)])
  | j => j

/-- A symbol with its identifier. -/
def symbolRecord (root : String) (s : Symbol) : Json :=
  withField root "symbol_id" (s.id (Path.shown "/" s.file root)) s.toJson

/-- A finding with its identifier, made of its kind, its place and what it is about. -/
def findingRecord (root kind file : String) (line column : Int) (subject : String) (record : Json) :
    Json :=
  withField root "diagnostic_id"
    (diagnosticId kind (Path.shown "/" file root) line column subject) record

/-- The record of a finding in a function. -/
def locatedRecord (root kind : String) (l : Location) (subject : String) (record : Json) : Json :=
  findingRecord root kind l.file l.line l.column subject record

/-- What is found in packages. -/
structure Findings where
  symbols : List Symbol := []
  unused : List UnusedSymbol := []
  complex : List ComplexFunction := []
  initializers : List Initializer := []
  switchable : List Switchable := []
  nestings : List Nesting := []
  wrappings : List Wrapping := []
  contexts : List RootContext := []
  flags : List Flag := []

namespace Findings

/-- What is found in packages under given settings, `referenced` being the names that are used. -/
def inPackages (c : Settings) (referenced : List String) (packages : List Package) : Findings :=
  let files := packages.flatMap (·.files)
  let tables := packages.map fun p => SymbolTable.ofPackage p c.unused.tests
  { symbols := tables.flatMap fun t => t.symbols.mergeSort UnusedSymbol.before
    unused := tables.flatMap (UnusedSymbol.inTable c.unused referenced)
    complex := ComplexFunction.ranked
      (packages.flatMap (ComplexFunction.inPackage (ComplexFunction.minimum c.leastPaths)))
    initializers := files.flatMap Initializer.inFile
    switchable := files.flatMap (Switchable.inFile (Switchable.minimum c.leastBranches))
    nestings := files.flatMap (Nesting.inFile c.nesting)
    wrappings := files.flatMap (Wrapping.inFile c.severity)
    contexts := files.flatMap RootContext.inFile
    flags := files.flatMap (Flag.inFile c.leastCalls) }

/-- The lists of records by the name of their report, in the order in which they are written. -/
def records (root : String) (f : Findings) : List (String × List Json) :=
  [("symbols", f.symbols.map (symbolRecord root)),
    ("unused", f.unused.map fun u =>
      findingRecord root "unused" u.symbol.file u.symbol.line u.symbol.column
        u.symbol.qualifiedName u.toJson),
    ("complexity", f.complex.map fun c =>
      findingRecord root "complexity" c.function.file c.function.line c.function.column
        c.function.name c.toJson),
    ("if_init", f.initializers.map fun i =>
      locatedRecord root "if_init" i.location i.expression i.toJson),
    ("boolean_branching", f.switchable.map fun s =>
      locatedRecord root "boolean_branching" s.location s.subject s.toJson),
    ("deep_if_else", f.nestings.map fun n =>
      locatedRecord root "deep_if_else" n.location n.location.function n.toJson),
    ("error_wrapping", f.wrappings.map fun w =>
      locatedRecord root "error_wrapping" w.location w.fault.text w.toJson),
    ("missing_context", f.contexts.map fun r =>
      locatedRecord root "missing_context" r.location r.location.function r.toJson),
    ("env_booleans", f.flags.map fun g =>
      locatedRecord root "env_booleans" g.location g.name g.toJson)]

end Findings

/-- The reports by file name: lists of records, and the dependencies on their own. -/
def texts (root : String) (f : Findings) (d : Dependencies) : List (String × String) :=
  (f.records root).map (fun (name, records) => (name ++ ".jsonl", Json.toLines records))
    ++ [("dependencies.json", d.toJson.indented 0)]

end GoAtlas.Report
