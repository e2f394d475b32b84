import GoAtlas.Text.Case
import GoAtlas.Text.Digit
import GoAtlas.Text.Split

namespace GoAtlas.Name

/-- A name is exported when it starts with an upper-case letter. -/
def isExported (name : String) : Bool :=
  match name.toList with
  | [] => false
  | c :: _ => Text.isUpper c

/-- A last element such as `v2`, which names a version and not a package. -/
def isVersion (s : String) : Bool :=
  Text.beginsWith s "v" && Text.isNumeral (Text.dropFirst 1 s)

/-- An element without a version such as `.v2` at its end. -/
def dropVersion (s : String) : String :=
  match Text.cutLast? ".v" s with
  | some (head, tail) => if Text.isNumeral tail then head else s
  | none => s

/-- An element without a leading `go-`, unless that is all of it. -/
def dropGo (s : String) : String :=
  if Text.beginsWith s "go-" && 3 < s.length then Text.dropFirst 3 s else s

/-- The package name an import path suggests. -/
def ofImportPath (path : String) : String :=
  match ((Text.splitAt '/' path).filter (· != "")).reverse with
  | [] => path
  | last :: before =>
    let element :=
      match before with
      | previous :: _ => if isVersion last then previous else last
      | [] => last
    (dropGo (dropVersion element)).map fun c => if c = '-' then '_' else c

/-- Words that name an error variable. -/
def isErrorVariable (name : String) : Bool :=
  let l := Text.lower name
  Text.finishesWith l "err" || Text.finishesWith l "error" || Text.beginsWith l "err"

/-- The words of a function name, cut before each ASCII capital but the first character. -/
def words (current : List Char) : List Char → List (List Char)
  | [] => if current.isEmpty then [] else [current.reverse]
  | c :: r =>
    if 'A' ≤ c && c ≤ 'Z' && !current.isEmpty then current.reverse :: words [c] r
    else words (c :: current) r

/-- A function name as lower-case words. -/
def phrase (name : String) : String :=
  " ".intercalate ((words [] name.toList).map fun w => Text.lower (String.ofList w))

end GoAtlas.Name
