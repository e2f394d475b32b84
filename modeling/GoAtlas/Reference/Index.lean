import GoAtlas.Json.Value
import GoAtlas.Graph
import GoAtlas.Workspace.Model

namespace GoAtlas.Reference

open Syntax

/-- How an identifier is used. -/
inductive Context where
  | call
  | selector
  | field
  | typeUse
  | generic
  deriving DecidableEq, Repr, Inhabited

namespace Context

def text : Context → String
  | .call => "call"
  | .selector => "selector"
  | .field => "field"
  | .typeUse => "type-use"
  | .generic => "generic"

def ofText? (s : String) : Option Context :=
  [Context.call, .selector, .field, .typeUse, .generic].find? (·.text == s)

end Context

/-- A node with the two nodes above it. -/
structure Site where
  node : Tree
  parent : Option Tree
  grandparent : Option Tree

namespace Site

/-- The sites directly below a site, from left to right. -/
def below (s : Site) : List Site :=
  s.node.children.map fun c => ⟨c, some s.node, s.parent⟩

end Site

/-- A tour of the sites of a tree: those passed, latest first, and the stack of those to come, the next
one in front. -/
structure Tour where
  passed : List Site := []
  stack : List Site

namespace Tour

variable {t u : Tour}

/-- Passes the next site, if there is one, and puts those directly below it in its place. -/
def step (t : Tour) : Option Tour :=
  match t.stack with
  | [] => none
  | s :: rest => some ⟨s :: t.passed, s.below ++ rest⟩

/-- How many sites are to come, those below the ones on the stack included. -/
def left (t : Tour) : Nat :=
  Tree.sizeAll (t.stack.map (·.node))

/-- One site fewer is to come after each step. -/
theorem left_step (h : t.step = some u) : u.left + 1 = t.left := by
  obtain ⟨passed, stack⟩ := t
  cases stack with
  | nil => cases h
  | cons s rest =>
    cases h
    have hbelow : s.below.map (·.node) = s.node.children := by
      rw [Site.below, List.map_map]
      exact List.map_id _
    rw [left, left, List.map_append, hbelow, Tree.sizeAll_append, List.map_cons, Tree.sizeAll,
      Tree.size_eq]
    omega

/-- Goes on until nothing is to come. -/
def finish (t : Tour) : List Site :=
  match _h : t.step with
  | none => t.passed.reverse
  | some u => u.finish
termination_by t.left
decreasing_by exact Nat.le_of_eq (left_step ‹_›)

end Tour

namespace Site

/-- A site and all below it, each before those below it, from left to right. -/
def walk (s : Site) : List Site :=
  Tour.finish { stack := [s] }

/-- The sites below the root of a file, and the root. -/
def ofTree (root : Tree) : List Site :=
  walk ⟨root, none, none⟩

def isIdentifier (s : Site) : Bool :=
  s.node.kind.isIdentifier

/-- Nodes whose name part declares. -/
def declaresName : Kind → Bool
  | .functionDeclaration | .methodDeclaration | .typeSpec | .typeAlias | .varSpec | .constSpec
  | .methodElem | .fieldDeclaration | .parameterDeclaration | .variadicParameterDeclaration
  | .typeParameterDeclaration | .importSpec => true
  | _ => false

/-- Statements whose targets are declared if they are written with a colon. -/
def bindsTargets : Kind → Bool
  | .shortVarDeclaration | .rangeClause | .receiveStatement => true
  | _ => false

/-- Whether a node is the target side of a statement that declares its targets. -/
def isFreshTarget (node statement : Tree) : Bool :=
  bindsTargets statement.kind && node.field = some .left && statement.hasToken ":="

/-- Whether an identifier declares what it names. -/
def isDeclaration (s : Site) : Bool :=
  match s.parent with
  | none => false
  | some parent =>
    if parent.kind = .packageClause then true
    else if declaresName parent.kind then s.node.field = some .name
    else if parent.kind = .expressionList then
      (s.grandparent.map (isFreshTarget parent)).getD false
    else isFreshTarget s.node parent

/-- Whether a node is what a call calls. -/
def isCallee (node : Tree) (parent : Option Tree) : Bool :=
  match parent with
  | some p => p.kind = .callExpression && node.field = some .function
  | none => false

/-- The name a selector chooses from, if it is a plain one. -/
def qualifierOf (source : ByteArray) (selector : Tree) : Option String :=
  ((selector.part? .operand).filter (·.kind = .identifier)).map (·.text source)

/-- How an identifier is used, and the name it is chosen from. -/
def classify (source : ByteArray) (s : Site) : Context × Option String :=
  match s.parent with
  | none => (.generic, none)
  | some parent =>
    if s.node.kind = .typeIdentifier then
      (.typeUse,
        if parent.kind = .qualifiedType then some (Tree.text? source (parent.part? .package))
        else none)
    else if parent.kind = .selectorExpression then
      if s.node.field = some .operand then (.selector, none)
      else
        (if isCallee parent s.grandparent then .call else .field, qualifierOf source parent)
    else if parent.kind = .qualifiedType then (.selector, none)
    else if s.node.kind = .fieldIdentifier then (.field, none)
    else if isCallee s.node s.parent then (.call, none)
    else (.generic, none)

end Site

/-- One occurrence of a name. -/
structure Entry where
  file : String
  offset : Int
  line : Int
  column : Int
  context : Context
  isDeclaration : Bool
  qualifier : Option String
  deriving DecidableEq, Repr

namespace Entry

def ofSite (f : SourceFile) (s : Site) : Entry :=
  let place := f.place s.node.start
  let (context, qualifier) := s.classify f.content
  { file := f.path, offset := s.node.start, line := place.line, column := place.column
    context, isDeclaration := s.isDeclaration, qualifier }

def toList (e : Entry) : List Json :=
  [.str e.file, .int e.offset, .int e.line, .int e.column, .str e.context.text,
    .bool e.isDeclaration, .ofOption e.qualifier]

def toJson (e : Entry) : Json :=
  .obj (["file", "offset", "line", "column", "context", "is_declaration", "qualifier"].zip e.toList)

end Entry

/-- Occurrences with their names, in the order of the walk. -/
abbrev Index := List (String × Entry)

namespace Index

/-- The occurrences in a file; the root itself is none. -/
def ofFile (f : SourceFile) : Index :=
  ((Site.ofTree f.tree).filter fun s => s.isIdentifier && s.parent.isSome).map fun s =>
    (f.text s.node, Entry.ofSite f s)

def ofFiles (fs : List SourceFile) : Index :=
  fs.flatMap ofFile

def occurrences (i : Index) (name : String) : List Entry :=
  (i.filter (·.1 == name)).map (·.2)

/-- The occurrences of a name that do not declare. -/
def uses (i : Index) (name : String) : List Entry :=
  (i.occurrences name).filter (!·.isDeclaration)

/-- All names, in increasing order. -/
def names (i : Index) : List String :=
  sortedSet (i.map (·.1))

/-- The names with an occurrence that does not declare, in increasing order. -/
def referenced (i : Index) : List String :=
  sortedSet ((i.filter (!·.2.isDeclaration)).map (·.1))

def contains (i : Index) (name : String) : Bool :=
  i.any (·.1 == name)

end Index

/-- The last identifier that covers an offset, among the sites that start no later. -/
def identifierAt? (root : Tree) (offset : Int) : Option Site :=
  (((Site.ofTree root).takeWhile fun s => (s.node.start : Int) ≤ offset).filter fun s =>
    s.isIdentifier && offset < (s.node.stop : Int)).getLast?

end GoAtlas.Reference
