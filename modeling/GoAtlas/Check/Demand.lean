import GoAtlas.Check.Package
import GoAtlas.Log

namespace GoAtlas.Check

/-- What happens in the course of the checks, by directory. -/
inductive Event where
  | begun (directory : String)
  | ended (directory : String) (errors : List Failure)
  /-- A check was not begun because too many were under way. -/
  | cutOff (directory : String)
  deriving DecidableEq, Repr

/-- What has been checked, by directory. A package with information has been checked or is being
checked; `holders` tells which directory's check was last begun under a name, and `history` what
has happened so far. -/
structure Checks where
  infos : Dict String TypeInfo := []
  handles : Dict String Handle := []
  holders : Dict String String := []
  history : List Event := []
  log : List LogRecord := []

namespace Checks

def info? (c : Checks) (p : Package) : Option TypeInfo :=
  c.infos.lookup p.path

/-- The handle of a package whose check found no error. -/
def typed? (c : Checks) (p : Package) : Option Handle :=
  (c.handles.lookup p.path).filter (·.complete)

/-- The handle last registered under a name. -/
def registered? (c : Checks) (key : String) : Option Handle :=
  (c.holders.lookup key).bind fun path => c.handles.lookup path

/-- Registers a package under its name, before its check. -/
def start (p : Package) (c : Checks) : Checks :=
  { c with
    infos := c.infos.put p.path {}
    handles := c.handles.put p.path (placeholder p.key p.files)
    holders := c.holders.put p.key p.path
    history := c.history ++ [.begun p.path] }

def finish (p : Package) (o : Outcome) (c : Checks) : Checks :=
  { c with
    infos := c.infos.put p.path o.info
    handles := c.handles.put p.path o.handle
    history := c.history ++ [.ended p.path o.errors]
    log := c.log ++ (o.failure? p.key).toList.map fun f =>
      ⟨.debug, "typecheck.importer",
        "type check of " ++ p.key ++ " failed, using AST only: " ++ f.text⟩ }

/-- Follows an import path, checking packages of the workspace by `ensure`. Any other path leads to
an opaque package. -/
def follow (ws : Workspace) (ensure : Package → Checks → Checks) : Importer Checks := fun path c =>
  match ws.packageForImport? path with
  | none => (.ok (Handle.outside path (Name.ofImportPath path)), c)
  | some p =>
    let c := if (c.typed? p).isSome then c else ensure p c
    match c.typed? p with
    | some h => (.ok h, c)
    | none =>
      match c.registered? p.key with
      | some h => (.ok h, c)
      | none =>
        (.error {
          kind := .typeCheck, message := "package " ++ path ++ " could not be checked"
          file := some p.path }, c)

/-- Follows an import path from within a check: a package under check is not checked again. -/
def followInside (ws : Workspace) (ensure : Package → Checks → Checks) : Importer Checks :=
  fun path c =>
    match c.registered? path with
    | some h => if h.complete then follow ws ensure path c else (.ok h, c)
    | none => follow ws ensure path c

/-- Checks a package unless that has been done, with imports at most `depth` deep. -/
def ensureTo (ws : Workspace) : Nat → Package → Checks → Checks
  | 0, p, c => { c with history := c.history ++ [.cutOff p.path] }
  | depth + 1, p, c =>
    if (c.info? p).isSome then c
    else
      let (outcome, c) := checkFiles (followInside ws (ensureTo ws depth)) p.key p.files (c.start p)
      c.finish p outcome

/-- Checks a package unless that has been done. Every nested check takes up a package that had no
information yet, so the number of packages bounds the depth. -/
def ensure (ws : Workspace) (p : Package) (c : Checks) : Checks :=
  ensureTo ws (ws.packages.length + 1) p c

/-- Follows an import path. -/
def importPath (ws : Workspace) : Importer Checks :=
  follow ws (ensure ws)

/-- Checks files under a name of their own, apart from the packages of the workspace, to which only
their imports lead. -/
def checkAs (ws : Workspace) (path : String) (files : List SourceFile) (c : Checks) :
    Outcome × Checks :=
  checkFiles
    (fun imported c =>
      if imported = path then (.ok (placeholder path files), c) else importPath ws imported c)
    path files c

end Checks

end GoAtlas.Check
