import GoAtlas.Dict
import GoAtlas.ModuleFile
import GoAtlas.Path
import GoAtlas.Source.Registry
import GoAtlas.Syntax.Declaration
import GoAtlas.Text.Blank

namespace GoAtlas

/-- A parsed source file with its slot in the position registry. -/
structure SourceFile where
  path : String
  content : ByteArray
  tree : Syntax.Tree
  slot : Source.Slot

namespace SourceFile

def name (f : SourceFile) : String :=
  Path.fileName f.path

def isTestPath (path : String) : Bool :=
  Text.finishesWith path "_test.go"

def isTest (f : SourceFile) : Bool :=
  isTestPath f.path

def text (f : SourceFile) (t : Syntax.Tree) : String :=
  t.text f.content

def place (f : SourceFile) (offset : Int) : Source.Place :=
  f.slot.place offset

/-- The registry position of a byte that lies in the file. -/
def position (f : SourceFile) (offset : Nat) : Int :=
  f.slot.base + offset

def imports (f : SourceFile) : List Syntax.Import :=
  f.tree.imports f.content

/-- The functions and methods declared in the file. -/
def functions (f : SourceFile) : List Syntax.Tree :=
  f.tree.functions

/-- The lines of a content, each without its line feed. -/
def contentLines (current : List UInt8) : List UInt8 → List (List UInt8)
  | [] => [current.reverse]
  | b :: r => if b = 0x0A then current.reverse :: contentLines [] r else contentLines (b :: current) r

/-- A line, counted from one, without blanks around it; empty when there is no such line. -/
def lineText (f : SourceFile) (line : Int) : String :=
  if line < 1 then ""
  else
    match (contentLines [] f.content.toList)[(line - 1).toNat]? with
    | some bytes => Text.strip (Text.Utf8.decode (ByteArray.mk bytes.toArray))
    | none => ""

end SourceFile

/-- The files of one directory. Test files are kept apart. -/
structure Package where
  path : String
  name : String := ""
  importPath : String := ""
  files : List SourceFile := []
  testFiles : List SourceFile := []
  imports : List String := []

namespace Package

/-- The name a package goes by: its import path, or its directory when it has none. -/
def key (p : Package) : String :=
  if p.importPath = "" then p.path else p.importPath

def allFiles (p : Package) (tests : Bool) : List SourceFile :=
  if tests then p.files ++ p.testFiles else p.files

end Package

structure Workspace where
  root : String
  module? : Option ModuleFile := none
  packages : List Package := []
  registry : Source.Registry := {}

namespace Workspace

def files (ws : Workspace) (tests : Bool) : List SourceFile :=
  ws.packages.flatMap (·.allFiles tests)

def package? (ws : Workspace) (path : String) : Option Package :=
  ws.packages.find? (·.path == path)

/-- The directories of packages by import path; without a module there are none. -/
def importTable (ws : Workspace) : Dict String String :=
  if ws.module?.isSome then
    ws.packages.foldl (fun d p => d.put p.importPath p.path) []
  else []

/-- The package an import path leads to, if it is in the workspace. -/
def packageForImport? (ws : Workspace) (importPath : String) : Option Package :=
  (ws.importTable.lookup importPath).bind ws.package?

def file? (ws : Workspace) (path : String) : Option SourceFile :=
  (ws.files true).find? (·.path == path)

/-- The package a file belongs to. -/
def packageOfFile? (ws : Workspace) (path : String) : Option Package :=
  ws.packages.find? fun p => (p.allFiles true).any (·.path == path)

/-- The import path of a directory: the module's, followed by the way from the root. A directory
outside the root gets that of the module itself. -/
def importPathOf (ws : Workspace) (directory : String) : String :=
  match ws.module? with
  | none => ""
  | some m =>
    match Path.below? ws.root directory with
    | some (part :: more) => m.path ++ "/" ++ "/".intercalate (part :: more)
    | _ => m.path

/-- The directory of the package a user means: by directory, by path from the root, by import path,
or by name if only one package bears it. -/
def packagePath (ws : Workspace) (reference : String) : String :=
  let known (p : String) := (ws.package? p).isSome
  let joined := Path.normalize (Path.join ws.root reference)
  if known reference then reference
  else if known joined then joined
  else
    match ws.importTable.lookup reference with
    | some p => p
    | none =>
      match ws.packages.filter (·.name == reference) with
      | [p] => p.path
      | _ => reference

end Workspace

end GoAtlas
