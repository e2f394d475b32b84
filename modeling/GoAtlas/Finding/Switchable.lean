import GoAtlas.Finding.Place
import GoAtlas.Syntax.Statement

namespace GoAtlas.Finding

open Syntax

/-- A variable set to the outcome of a comparison: `name := subject operator value`. -/
structure Introduction where
  name : String
  subject : String
  operator : String
  value : String
  deriving DecidableEq, Repr

namespace Introduction

/-- The introduction a target and its expression make. -/
def of? (source : ByteArray) (target expression : Tree) : Option Introduction := do
  if target.kind != .identifier || target.text source = "_" then none
  let e ← expression.core?
  if e.kind != .binaryExpression then none
  let op := e.operator source
  if op != "==" && op != "!=" then none
  let left ← (e.part? .left).bind Tree.core?
  if left.kind != .identifier then none
  pure ⟨target.text source, left.text source, op, Tree.text? source (e.part? .right)⟩

/-- The introductions of a short declaration with as many targets as values. -/
def ofStatement (source : ByteArray) (t : Tree) : List Introduction :=
  let left := Tree.expressions? (t.part? .left)
  let right := Tree.expressions? (t.part? .right)
  if left.length = right.length then
    (left.zip right).filterMap fun (target, e) => of? source target e
  else []

/-- The introductions in a body, in the order of its walk. -/
def inBody (source : ByteArray) (body : Tree) : List Introduction :=
  (body.walk.filter (·.kind = .shortVarDeclaration)).flatMap (ofStatement source)

end Introduction

/-- The name a condition consists of. -/
def conditionName? (source : ByteArray) (t : Tree) : Option String :=
  (((t.part? .condition).bind Tree.core?).filter (·.kind = .identifier)).map (·.text source)

/-- The names that are whole conditions, each with the start of the first statement testing it. -/
def conditions (source : ByteArray) (body : Tree) : Dict String Nat :=
  (body.walk.filter (·.kind = .ifStatement)).foldl
    (fun d t =>
      match conditionName? source t with
      | some name => d.addNew name t.start
      | none => d) []

/-- Truth values with a common subject. -/
structure Switchable where
  location : Location
  subject : String
  names : List String
  branches : Nat
  suggestion : String
  deriving DecidableEq, Repr

namespace Switchable

/-- Introductions by subject, each name once. -/
def groups (l : List Introduction) : Dict String (List Introduction) :=
  l.foldl (fun d i =>
    if ((d.lookup i.subject).getD []).any (·.name == i.name) then d else d.gather i.subject i) []

def suggest (subject : String) (group : List Introduction) : String :=
  "switch " ++ subject ++ " \x7b "
    ++ " ".intercalate (group.map fun i => "case " ++ i.value ++ ": ...") ++ " \x7d"

/-- What is reported of a group, if at least `least` of its names are conditions. -/
def ofGroup? (least : Nat) (f : SourceFile) (function : String) (tested : Dict String Nat)
    (subject : String) (group : List Introduction) : Option Switchable :=
  let used := group.filterMap fun i => tested.lookup i.name
  if group.length < least || used.length < least then none
  else
    used.min?.map fun first =>
      { location := Location.of f function first
        subject
        names := group.map (·.name)
        branches := used.length
        suggestion := suggest subject group }

/-- The least number of branches that is reported; two is the least that makes sense. -/
def minimum (n : Int) : Nat :=
  max n.toNat 2

def inFile (least : Nat) (f : SourceFile) : List Switchable :=
  (bodies f).flatMap fun (name, _, body) =>
    (groups (Introduction.inBody f.content body)).filterMap fun (subject, group) =>
      ofGroup? least f name (conditions f.content body) subject group

def toJson (s : Switchable) : Json :=
  .obj (s.location.fields ++ [("source_variable", .str s.subject),
    ("boolean_variables", .strs s.names), ("branch_count", .int s.branches),
    ("suggestion", .str s.suggestion)])

end Switchable

end GoAtlas.Finding
