import GoAtlas.Text.Split

namespace GoAtlas.Path

/-- The parts of a path between slashes, without empty ones and single dots. -/
def parts (p : String) : List String :=
  (Text.splitAt '/' p).filter fun s => s != "" && s != "."

def isAbsolute (p : String) : Bool :=
  Text.beginsWith p "/"

/-- Parts without any two dots that can be taken back, `before` being those read, latest first; at
the root of an absolute path two dots lead nowhere. -/
def collapse (absolute : Bool) (before : List String) : List String → List String
  | [] => before.reverse
  | s :: r =>
    if s = ".." then
      match before with
      | [] => collapse absolute (if absolute then [] else [".."]) r
      | t :: more => if t = ".." then collapse absolute (s :: before) r else collapse absolute more r
    else collapse absolute (s :: before) r

/-- The absolute path with the given parts. -/
def ofParts (ps : List String) : String :=
  "/" ++ "/".intercalate ps

/-- A path without repeated slashes and dots that can be left out. -/
def normalize (p : String) : String :=
  let ps := collapse (isAbsolute p) [] (parts p)
  if isAbsolute p then
    (if Text.beginsWith p "//" && !Text.beginsWith p "///" then "/" else "") ++ ofParts ps
  else if ps.isEmpty then "." else "/".intercalate ps

/-- `p` as seen from `base`. -/
def join (base p : String) : String :=
  if isAbsolute p then p
  else if base = "" || Text.finishesWith base "/" then base ++ p
  else base ++ "/" ++ p

/-- The slashes a path starts with: none, one, or exactly two, which stand apart. -/
def anchor (p : String) : String :=
  if Text.beginsWith p "//" && !Text.beginsWith p "///" then "//"
  else if Text.beginsWith p "/" then "/"
  else ""

/-- The path some levels up, without empty parts and single dots, but otherwise as it is written. -/
def above (levels : Nat) (p : String) : String :=
  let kept := (parts p).take ((parts p).length - levels)
  if anchor p = "" && kept.isEmpty then "." else anchor p ++ "/".intercalate kept

/-- A path without empty parts and single dots, but otherwise as it is written. -/
def tidy (p : String) : String :=
  above 0 p

/-- What follows a given start of a list. -/
def afterPrefix? : List String → List String → Option (List String)
  | [], bs => some bs
  | a :: as, b :: bs => if a = b then afterPrefix? as bs else none
  | _ :: _, [] => none

/-- The parts of a path below `root`, as they are written. -/
def below? (root p : String) : Option (List String) :=
  if anchor root = anchor p then afterPrefix? (parts root) (parts p) else none

/-- The last part of a path. -/
def fileName (p : String) : String :=
  (parts p).getLast?.getD ""

/-- What is left of two lists after the start they share. -/
def afterCommon : List String → List String → List String × List String
  | a :: as, b :: bs => if a = b then afterCommon as bs else (a :: as, b :: bs)
  | as, bs => (as, bs)

/-- The parts of a path in normal form, a relative one being seen from `cwd`. -/
def absoluteParts (cwd p : String) : List String :=
  collapse true [] (parts (join cwd p))

/-- The way from `root` to `p`. -/
def relative (cwd p root : String) : String :=
  let (down, up) := afterCommon (absoluteParts cwd p) (absoluteParts cwd root)
  let steps := up.map (fun _ => "..") ++ down
  if steps.isEmpty then "." else "/".intercalate steps

/-- A path below `root` from there; any other path is left alone. -/
def shown (cwd p root : String) : String :=
  if p = "" then p
  else
    let r := relative cwd p root
    if Text.beginsWith r ".." then p else r

end GoAtlas.Path
