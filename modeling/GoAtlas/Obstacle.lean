import GoAtlas.Failure
import GoAtlas.Files.Store
import GoAtlas.Loose.Value

namespace GoAtlas

inductive Obstacle where
  /-- The analysis itself fails. -/
  | failure (f : Failure)
  /-- The configuration cannot be used; where single values are at fault, they are told. -/
  | config (message : String) (issues : Option (List Loose.Issue))
  /-- A text is not encoded as it should be. -/
  | undecodable
  /-- A path cannot be written, or leads into a loop of links. -/
  | unwritable (e : Files.AccessError)
  deriving DecidableEq, Repr

namespace Obstacle

def text : Obstacle → String
  | .failure f => f.text
  | .config message _ => message
  | .undecodable => "text is not valid UTF-8"
  | .unwritable e => e.text

end Obstacle

end GoAtlas
