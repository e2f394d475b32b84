import GoAtlas.Files.Ignore
import GoAtlas.Files.Store
import GoAtlas.Obstacle

namespace GoAtlas.Discovery

open Files

def isSourceName (name : String) : Bool :=
  Text.finishesWith name ".go"

/-- Directories that are never entered. -/
def isSkipped (name : String) : Bool :=
  Text.beginsWith name "." || name = "vendor"

/-- Whether an entry is a directory, a link being followed. A link to nothing is none. -/
def leadsToDir (s : Store) (path : String) : Entry → Except AccessError Bool
  | .file _ => .ok false
  | .dir _ => .ok true
  | .link _ =>
    match s.locate path with
    | .ok (_, e) => .ok e.isDir
    | .error e => if e.fault = .missing then .ok false else .error e

/-- The failure to read a directory. -/
def readFailure (directory : String) (e : AccessError) : Failure :=
  { kind := .fileSystem, message := "failed to read directory: " ++ e.text
    file := some directory }

/-- Whether an entry of a directory is a source file. -/
def isSource (s : Store) (directory : String) (name : String) (e : Entry) :
    Except AccessError Bool :=
  if isSourceName name then
    (leadsToDir s (Path.join directory name) e).map (!·)
  else .ok false

/-- Whether one of the entries is a source file; those after the first are not looked at. -/
def anySource (s : Store) (directory : String) : List (String × Entry) → Except AccessError Bool
  | [] => .ok false
  | (name, e) :: more => do
    if ← isSource s directory name e then .ok true else anySource s directory more

/-- Whether a directory holds a source file. -/
def hasSources (s : Store) (directory : String) : Except Failure Bool :=
  match (s.list directory).bind (anySource s directory) with
  | .ok b => .ok b
  | .error e => .error (readFailure directory e)

/-- The source files of a directory in increasing order of their names. -/
def sources (s : Store) (directory : String) : Except Failure (List String) :=
  let names := do
    (← s.list directory).filterM fun (name, e) => isSource s directory name e
  match names with
  | .ok l =>
    .ok (((l.map (·.1)).mergeSort fun a b => decide (a ≤ b)).map (Path.join directory))
  | .error e => .error (readFailure directory e)

mutual
/-- A directory and those below it, each before its own, those of one directory in increasing order
of their names. `way` leads there from the root. -/
def directories (ignored : List String → Bool) (root : String) (way : List String) :
    Entry → List String
  | .dir entries =>
    way.foldl Path.join root
      :: ((directoriesIn ignored root way entries).mergeSort fun a b =>
        decide (a.1 ≤ b.1)).flatMap (·.2)
  | _ => []

def directoriesIn (ignored : List String → Bool) (root : String) (way : List String) :
    List (String × Entry) → List (String × List String)
  | [] => []
  | (name, e) :: more =>
    let here := way ++ [name]
    (if e.isDir && !isSkipped name && !ignored here then
      [(name, directories ignored root here e)]
    else [])
    ++ directoriesIn ignored root way more
end

/-- The ignore rules of a root directory, kept in a file of its own and not behind a link. -/
def rulesOf (s : Store) (root : String) : Except Obstacle (List IgnoreRule) :=
  let path := Path.join root ".gitignore"
  if s.isFile path && !s.isLink path then
    match (s.read path).toOption.bind Text.Utf8.decode? with
    | some text => .ok (ignoreRules text)
    | none => .error .undecodable
  else .ok []

/-- The directories below a root that hold source files and are not ignored by the given rules. -/
def packageDirsBy (s : Store) (root : String) (rules : List IgnoreRule) :
    Except Obstacle (List String) :=
  match s.entry? root with
  | some (.dir entries) =>
    let all := directories (fun way => isIgnored rules ("/".intercalate way)) root [] (.dir entries)
    match all.filterM (hasSources s) with
    | .ok l => .ok l
    | .error f => .error (.failure f)
  | _ =>
    .error (.failure {
      kind := .fileSystem, message := "workspace root is not a directory", file := some root })

/-- The directories below a root that hold source files. -/
def packageDirs (s : Store) (root : String) (respectIgnore : Bool) :
    Except Obstacle (List String) :=
  (if respectIgnore then rulesOf s root else .ok []).bind (packageDirsBy s root)

end GoAtlas.Discovery
