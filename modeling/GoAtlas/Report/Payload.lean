import GoAtlas.Json.Value
import GoAtlas.Path

namespace GoAtlas.Report

/-- Keys whose values depend on the order in which files were parsed. -/
def isUnstable (key : String) : Bool :=
  key = "position" || key = "end"

mutual
def payload (cwd root : String) : Json → Json
  | .arr items => .arr (payloadAll cwd root items)
  | .obj fields => .obj (payloadFields cwd root fields)
  | j => j

def payloadAll (cwd root : String) : List Json → List Json
  | [] => []
  | j :: js => payload cwd root j :: payloadAll cwd root js

def payloadFields (cwd root : String) : List (String × Json) → List (String × Json)
  | [] => []
  | (k, .str s) :: fs =>
    if isUnstable k then payloadFields cwd root fs
    else
      (k, .str (if k = "file" then Path.shown cwd s root else s)) :: payloadFields cwd root fs
  | (k, v) :: fs =>
    if isUnstable k then payloadFields cwd root fs
    else (k, payload cwd root v) :: payloadFields cwd root fs
end

end GoAtlas.Report
