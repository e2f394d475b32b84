import GoAtlas.Text.Blank
import GoAtlas.Text.Split

namespace GoAtlas

structure ModuleFile where
  path : String := ""
  version : Option String := none
  deriving DecidableEq, Repr

namespace ModuleFile

/-- A line without its comment and surrounding blanks. -/
def stripLine (line : String) : String :=
  Text.strip (((Text.cut? "//" line).map (·.1)).getD line)

/-- The rest of a line after a directive and a blank. -/
def directive? (word line : String) : Option String :=
  if Text.beginsWith line (word ++ " ") then
    some (Text.strip (Text.dropFirst (word.length + 1) line))
  else none

/-- Takes up one line: the first module directive with a path and the first language version
count. -/
def readLine (m : ModuleFile) (line : String) : ModuleFile :=
  match directive? "module" line, directive? "go" line with
  | some path, _ => if m.path = "" then { m with path := Text.stripWith (· == '"') path } else m
  | none, some version => { m with version := some (m.version.getD version) }
  | none, none => m

def read (text : String) : ModuleFile :=
  (Text.lines text).foldl (fun m line => m.readLine (stripLine line)) {}

end ModuleFile

end GoAtlas
