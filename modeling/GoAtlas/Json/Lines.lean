import GoAtlas.Json.Read
import GoAtlas.Text.Blank
import GoAtlas.Text.Split

namespace GoAtlas.Json

/-- Values, one on each line. -/
def toLines (values : List Json) : String :=
  String.join (values.map fun j => j.compact ++ "\n")

def isObject : Json → Bool
  | .obj _ => true
  | _ => false

/-- The lines of a text that are not blank. -/
def filledLines (s : String) : List String :=
  ((Text.splitWhere (fun c => c = '\n' || c = '\r') s.toList).map fun l =>
    Text.strip (String.ofList l)).filter (· != "")

/-- The objects on the lines of a text; other values are passed over, and every line that is not
blank has to hold a value. -/
def objectsOfLines? (s : String) : Option (List Json) := do
  let values ← (filledLines s).mapM parse?
  pure (values.filter isObject)

end GoAtlas.Json
