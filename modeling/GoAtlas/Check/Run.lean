import GoAtlas.Check.Binding
import GoAtlas.Failure

namespace GoAtlas.Check

/-- A package imported under a name of its own. -/
structure Imported where
  name : String
  path : String
  handle : Handle

/-- Where bindings stand: the file, the package under check, and what the file imports, by name or
with all its members. -/
structure Surroundings where
  file : String
  package : String
  imports : List Imported := []
  dots : List Handle := []

/-- What has been found so far and the scopes open at this point. -/
structure State where
  scope : Scope
  info : TypeInfo := {}
  errors : List Failure := []

namespace State

def recordType (e : Surroundings) (start stop : Nat) (type : String) (s : State) : State :=
  { s with info.types := s.info.types.put ⟨e.file, start, stop⟩ type }

/-- Records that an identifier denotes an object, and the object's type as its own. -/
def recordUse (e : Surroundings) (n : Ident) (o : Object) (s : State) : State :=
  let s := { s with info.uses := s.info.uses.put ⟨e.file, n.start⟩ o }
  match o.type with
  | some type => if type = "" then s else s.recordType e n.start n.stop type
  | none => s

def fail (e : Surroundings) (n : Ident) (message : String) (s : State) : State :=
  { s with
    errors := s.errors ++ [{
      kind := .typeCheck, message, file := some e.file
      line := n.first.row + 1, column := n.first.column + 1 }] }

/-- Declares a name in the innermost scope; the blank name is never bound. -/
def declare (e : Surroundings) (n : Ident) (kind : ObjectKind) (type : Option String) (s : State) :
    State :=
  if n.name = "_" then s
  else
    let spot : Spot := ⟨e.file, n.start⟩
    let o : Object := { name := n.name, kind, package := e.package, spot := some spot, type }
    { s with scope := s.scope.bind o, info.defs := s.info.defs.put spot o }

/-- What a name denotes: an object in scope, or a member of a package whose members are all
imported. -/
def denotes? (e : Surroundings) (name : String) (s : State) : Option Object :=
  match s.scope.lookup name with
  | some o => some o
  | none => e.dots.findSome? (·.member? name)

def use (e : Surroundings) (n : Ident) (soft : Bool) (s : State) : State :=
  if n.name = "_" then s
  else
    match s.denotes? e n.name with
    | some o => s.recordUse e n o
    | none => if soft then s else s.fail e n ("undefined: " ++ n.name)

/-- Uses a member of an imported package. One that is missing is an error only if the package is
complete. -/
def useMember (e : Surroundings) (package : Object) (n : Ident) (s : State) : State :=
  match e.imports.find? (·.name == package.name) with
  | none => s
  | some i =>
    match i.handle.member? n.name with
    | some o => s.recordUse e n o
    | none =>
      if i.handle.complete then s.fail e n ("undefined: " ++ package.name ++ "." ++ n.name) else s

/-- Whether the innermost scope binds a name. -/
def bindsHere (name : String) (s : State) : Bool :=
  match s.scope with
  | [] => false
  | f :: _ => (f.lookup name).isSome

def act (e : Surroundings) (s : State) : Action → State
  | .use n soft => s.use e n soft
  | .declare n kind type => s.declare e n kind type
  | .short n type => if s.bindsHere n.name then s.use e n false else s.declare e n .var type
  | .member operand field =>
    match s.info.uses.lookup ⟨e.file, operand.start⟩ with
    | some o => if o.kind = .package then s.useMember e o field else s
    | none => s
  | .qualified package name =>
    match s.scope.lookup package.name with
    | some o =>
      if o.kind = .package then (s.recordUse e package o).useMember e o name
      else s.fail e package ("undefined: " ++ package.name)
    | none => s.fail e package ("undefined: " ++ package.name)
  | .typed start stop type => s.recordType e start stop type

/-- Opens a scope inside the innermost one. -/
def enter (s : State) : State :=
  { s with scope := [] :: s.scope }

/-- Closes the innermost scope. -/
def leave (s : State) : State :=
  { s with scope := s.scope.tail }

mutual
def follow (e : Surroundings) (s : State) : Binding → State
  | .act a => s.act e a
  | .scope body => (followAll e s.enter body).leave

def followAll (e : Surroundings) (s : State) : List Binding → State
  | [] => s
  | b :: bs => followAll e (follow e s b) bs
end

end State

end GoAtlas.Check
