import GoAtlas.Check.Run
import GoAtlas.Workspace.Model

namespace GoAtlas.Check

open Syntax

/-- The names of a package and the objects declared so far. -/
structure Declared where
  names : Frame := []
  defs : Dict Spot Object := []

namespace Declared

def objectAt (package file : String) (n : Ident) (kind : ObjectKind) (type : Option String) :
    Object :=
  { name := n.name, kind, package, spot := some ⟨file, n.start⟩, type }

/-- Notes a declaration, and binds its name unless it is taken or not to be bound. -/
def add (o : Object) (bound : Bool) (d : Declared) : Declared :=
  { names := if bound then d.names.addNew o.name o else d.names
    defs :=
      match o.spot with
      | some spot => d.defs.put spot o
      | none => d.defs }

/-- Adds a method to a type, unless the type has one of that name. -/
def withMethod (name : String) (o : Object) : Object :=
  if o.methods.contains name then o else { o with methods := o.methods ++ [name] }

/-- The type of a function, as its parameters and results are written. -/
def signature (source : ByteArray) (t : Tree) : String :=
  let parameters := "func" ++ Tree.text? source (t.part? .parameters)
  match t.part? .result with
  | some result => parameters ++ " " ++ result.text source
  | none => parameters

/-- The objects a declaration at the top level declares, and whether each is bound. -/
def objects (package : String) (f : SourceFile) (t : Tree) : List (Object × Bool) :=
  let object := objectAt package f.path
  match t.kind with
  | .functionDeclaration =>
    (t.part? .name).toList.map fun n =>
      let o := object (Ident.of f.content n) .func (some (signature f.content t))
      (o, o.name != "init")
  | .typeDeclaration =>
    (t.typeSpecs.filterMap (·.part? .name)).map fun n =>
      let o := object (Ident.of f.content n) .type none
      (o, o.name != "_")
  | .varDeclaration =>
    ((t.specs .varSpec).flatMap (specNames f.content)).map fun (n, type) =>
      (object n .var type, n.name != "_")
  | .constDeclaration =>
    ((t.specs .constSpec).flatMap (specNames f.content)).map fun (n, type) =>
      (object n .const type, n.name != "_")
  | _ => []

/-- Collects the names of a file. -/
def addNames (package : String) (d : Declared) (f : SourceFile) : Declared :=
  (f.tree.named.flatMap (objects package f)).foldl (fun d (o, bound) => d.add o bound) d

/-- Collects a method, which joins the methods of its receiver's type. -/
def addMethod (package : String) (f : SourceFile) (d : Declared) (t : Tree) : Declared :=
  match t.part? .name with
  | none => d
  | some n =>
    let o := objectAt package f.path (Ident.of f.content n) .method (some (signature f.content t))
    let d := d.add o false
    let receiver := t.receiverName f.content
    match d.names.lookup receiver with
    | some r =>
      if r.kind = .type then
        { names := d.names.adjust receiver (withMethod o.name)
          defs :=
            match r.spot with
            | some spot => d.defs.adjust spot (withMethod o.name)
            | none => d.defs }
      else d
    | none => d

def addMethods (package : String) (d : Declared) (f : SourceFile) : Declared :=
  (f.tree.named.filter (·.kind = .methodDeclaration)).foldl (addMethod package f) d

/-- The declarations of the files of a package. -/
def ofFiles (package : String) (files : List SourceFile) : Declared :=
  files.foldl (addMethods package) (files.foldl (addNames package) {})

end Declared

/-- The handle of a package under check, with all its names. -/
def placeholder (path : String) (files : List SourceFile) : Handle :=
  { path
    name := (files.head?.map fun f => f.tree.packageName f.content).getD ""
    names := (Declared.ofFiles path files).names }

/-- How an import path is followed: it may change the state of the checks and may fail. -/
abbrev Importer (σ : Type) := String → σ → Except Failure Handle × σ

/-- What the imports of a file bring into its scope. -/
structure Linked where
  surroundings : Surroundings
  errors : List Failure := []

namespace Linked

/-- The name under which an import is bound. -/
def boundName (i : Import) (h : Handle) : String :=
  match i.givenName with
  | some a => if a = "" then unaliased else a
  | none => unaliased
where
  /-- The name the package declares, else the one its path suggests. -/
  unaliased : String := if h.name = "" then Name.ofImportPath i.path else h.name

def add (i : Import) (h : Handle) (l : Linked) : Linked :=
  if i.givenName = some "." then
    { l with surroundings.dots := l.surroundings.dots ++ [h] }
  else
    { l with surroundings.imports := l.surroundings.imports ++ [⟨boundName i h, i.path, h⟩] }

/-- The failure to follow an import. -/
def importFailure (file : String) (i : Import) (cause : Failure) : Failure :=
  { kind := .typeCheck, message := "could not import " ++ i.path ++ ": " ++ cause.message
    file := some file, line := i.line, column := 1 }

variable {σ : Type}

/-- Follows an import; one that fails stands for an opaque package. -/
def follow (importer : Importer σ) (ls : Linked × σ) (i : Import) : Linked × σ :=
  if i.givenName = some "_" then ls
  else
    match importer i.path ls.2 with
    | (.ok h, s) => (ls.1.add i h, s)
    | (.error cause, s) =>
      ({ ls.1 with errors := ls.1.errors ++ [importFailure ls.1.surroundings.file i cause] }.add i
          (Handle.outside i.path (Name.ofImportPath i.path)), s)

def file (importer : Importer σ) (package : String) (f : SourceFile) (s : σ) : Linked × σ :=
  f.imports.foldl (follow importer) (⟨{ file := f.path, package }, []⟩, s)

/-- The imports of several files, one file after the other. -/
def files (importer : Importer σ) (package : String) :
    List SourceFile → σ → List (SourceFile × Linked) × σ
  | [], s => ([], s)
  | f :: fs, s =>
    let (l, s) := file importer package f s
    let (ls, s) := files importer package fs s
    ((f, l) :: ls, s)

/-- The scope of a file: what it imports by name. -/
def frame (l : Linked) : Frame :=
  l.surroundings.imports.map fun i =>
    (i.name, { name := i.name, kind := .package, package := i.path })

end Linked

/-- Binds the declarations of one file within the names of its package. -/
def bindFile (names : Frame) (s : State) (f : SourceFile) (l : Linked) : State :=
  State.followAll l.surroundings { s with scope := [l.frame, names, universeFrame] }
    (fileBindings f.content f.tree)

/-- What the check of a package finds: its handle, its information and its errors in order. -/
structure Outcome where
  handle : Handle
  info : TypeInfo
  errors : List Failure

namespace Outcome

/-- What the check of files as the package `path` finds, given what their imports bring in. -/
def ofLinked (path : String) (files : List SourceFile) (linked : List (SourceFile × Linked)) :
    Outcome :=
  let declared := Declared.ofFiles path files
  let start : State :=
    { scope := [], info := { defs := declared.defs }, errors := linked.flatMap (·.2.errors) }
  let final := linked.foldl (fun s (f, l) => bindFile declared.names s f l) start
  { handle := { placeholder path files with complete := final.errors.isEmpty }
    info := final.info
    errors := final.errors }

/-- The failure a check with errors ends in. -/
def failure? (o : Outcome) (path : String) : Option Failure :=
  o.errors.head?.map fun first =>
    { first with
      message := toString o.errors.length ++ " error(s) checking " ++ path ++ ": " ++ first.message }

end Outcome

/-- Checks files as the package `path`. -/
def checkFiles {σ : Type} (importer : Importer σ) (path : String) (files : List SourceFile) (s : σ) :
    Outcome × σ :=
  let (linked, s) := Linked.files importer path files s
  (Outcome.ofLinked path files linked, s)

end GoAtlas.Check
