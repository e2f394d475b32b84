import GoAtlas.Log
import GoAtlas.Syntax.Parse
import GoAtlas.Workspace.Discovery
import GoAtlas.Workspace.Model

namespace GoAtlas.Load

open Files

/-- Reads and parses a file. Only a file without syntax errors is registered. -/
def file (s : Store) (path : String) (r : Source.Registry) :
    Except Failure (SourceFile × Source.Registry) :=
  match s.read path with
  | .error e =>
    .error { kind := .fileSystem, message := "failed to read file: " ++ e.text, file := some path }
  | .ok content =>
    match Syntax.parse? content with
    | none =>
      .error { kind := .parse, message := "syntax error", file := some path, placed := false }
    | some tree =>
      let (slot, r) := r.add path content
      .ok ({ path, content, tree, slot }, r)

/-- A package with one more file. The first file other than a test that declares a name gives the
package its name, and those files its imports. -/
def addFile (p : Package) (f : SourceFile) : Package :=
  if f.isTest then { p with testFiles := p.testFiles ++ [f] }
  else
    { p with
      files := p.files ++ [f]
      name := if p.name = "" then f.tree.packageName f.content else p.name
      imports := f.imports.foldl
        (fun l i => if l.contains i.path then l else l ++ [i.path]) p.imports }

/-- Adds files to a package until one fails. -/
def addFiles (s : Store) : List String → Package → Source.Registry →
    Except Failure Package × Source.Registry
  | [], p, r => (.ok p, r)
  | path :: more, p, r =>
    match file s path r with
    | .ok (f, r) => addFiles s more (addFile p f) r
    | .error e => (.error e, r)

/-- The package in a directory. Files read before a failure stay registered. -/
def package (s : Store) (directory : String) (r : Source.Registry) :
    Except Failure Package × Source.Registry :=
  match Discovery.sources s directory with
  | .error e => (.error e, r)
  | .ok paths =>
    match addFiles s paths { path := directory } r with
    | (.ok p, r) =>
      if p.files.isEmpty then
        (.error {
          kind := .parse, message := "no non-test Go files found in package"
          file := some directory }, r)
      else (.ok p, r)
    | (.error e, r) => (.error e, r)

/-- The packages of several directories, each with its outcome. -/
def packages (s : Store) : List String → Source.Registry →
    List (String × Except Failure Package) × Source.Registry
  | [], r => ([], r)
  | d :: ds, r =>
    let (result, r) := package s d r
    let (results, r) := packages s ds r
    ((d, result) :: results, r)

def logSource : String := "parse.workspace_parser"

/-- The module of a root directory, if it has a module file. -/
def moduleOf (s : Store) (root : String) : Except Obstacle (Option ModuleFile) :=
  let path := Path.join root "go.mod"
  if s.isFile path then
    match (s.read path).toOption.bind Text.Utf8.decode? with
    | some text => .ok (some (ModuleFile.read text))
    | none =>
      .error (.failure {
        kind := .fileSystem, message := "failed to read go.mod", file := some path })
  else .ok none

/-- A workspace whose packages know their import paths. -/
def withImportPaths (ws : Workspace) : Workspace :=
  if ws.module?.isSome then
    { ws with packages := ws.packages.map fun p => { p with importPath := ws.importPathOf p.path } }
  else ws

/-- The workspace in the given directories, and what is to be said about them. -/
def assemble (s : Store) (root : String) (module? : Option ModuleFile) (dirs : List String) :
    Workspace × List LogRecord :=
  let (results, registry) := packages s dirs {}
  let ws := withImportPaths
    { root, module?, registry, packages := results.filterMap fun (_, r) => r.toOption }
  let warnings := results.filterMap fun (d, r) =>
    match r with
    | .error e => some ⟨.warning, logSource, "failed to parse package " ++ d ++ ": " ++ e.text⟩
    | .ok _ => none
  let name := (module?.map (·.path)).getD "<none>"
  (ws, ⟨.debug, logSource, "discovered " ++ toString dirs.length ++ " package directories"⟩
    :: warnings
    ++ [⟨.info, logSource,
      "workspace parsed: " ++ toString ws.packages.length ++ " packages, module " ++ name⟩])

/-- The workspace below a directory whose path is resolved, with what was logged on the way. -/
def workspaceAt (s : Store) (root : String) (respectIgnore : Bool) :
    Except Obstacle Workspace × List LogRecord :=
  let begun : LogRecord := ⟨.info, logSource, "parsing workspace " ++ root⟩
  match moduleOf s root with
  | .error e => (.error e, [begun])
  | .ok module? =>
    match Discovery.packageDirs s root respectIgnore with
    | .error e => (.error e, [begun])
    | .ok dirs =>
      let (ws, log) := assemble s root module? dirs
      (.ok ws, begun :: log)

/-- The workspace below a directory. -/
def workspace (s : Store) (root : String) (respectIgnore : Bool) :
    Except Obstacle Workspace × List LogRecord :=
  match s.resolve root with
  | .error e => (.error (.unwritable e), [])
  | .ok root => workspaceAt s root respectIgnore

end GoAtlas.Load
