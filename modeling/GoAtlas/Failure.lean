namespace GoAtlas

inductive FailureKind where
  | fileSystem
  | parse
  | symbolNotFound
  | typeCheck
  | invalidOperation
  | cyclicDependency
  deriving DecidableEq, Repr

namespace FailureKind

def text : FailureKind → String
  | .fileSystem => "file_system"
  | .parse => "parse"
  | .symbolNotFound => "symbol_not_found"
  | .typeCheck => "type_check"
  | .invalidOperation => "invalid_operation"
  | .cyclicDependency => "cyclic_dependency"

def all : List FailureKind :=
  [.fileSystem, .parse, .symbolNotFound, .typeCheck, .invalidOperation, .cyclicDependency]

def ofText? (s : String) : Option FailureKind :=
  all.find? (·.text == s)

end FailureKind

/-- A failure; line and column are zero where they are not known, and `placed` is unset for a place
that is not part of the text. -/
structure Failure where
  kind : FailureKind
  message : String
  file : Option String := none
  line : Int := 0
  column : Int := 0
  placed : Bool := true
  deriving DecidableEq, Repr

namespace Failure

/-- The text of a failure: its place, if it has a file, and its message. -/
def text (f : Failure) : String :=
  match f.file with
  | none => f.message
  | some file =>
    if file = "" then f.message
    else if f.placed then
      file ++ ":" ++ toString f.line ++ ":" ++ toString f.column ++ ": " ++ f.message
    else file ++ ": " ++ f.message

end Failure

end GoAtlas
