import GoAtlas.Files.Contents
import GoAtlas.Report.Generate

namespace GoAtlas.Report

open Files

/-- How written reports differ from new ones, by paths in increasing order. -/
structure Comparison where
  /-- Files of both with different contents. -/
  mismatches : List String
  /-- Files that a new run does not write. -/
  missing : List String
  /-- Files that only a new run writes. -/
  extra : List String
  deriving DecidableEq, Repr

namespace Comparison

def ok (c : Comparison) : Bool :=
  c.mismatches.isEmpty && c.missing.isEmpty && c.extra.isEmpty

/-- The paths of one list of files that another has not. -/
def pathsOnlyIn (these others : List (String × ByteArray)) : List String :=
  (these.filter fun f => (others.lookup f.1).isNone).map (·.1)

def ofContents (written fresh : List (String × ByteArray)) : Comparison :=
  { mismatches := (written.filter fun f =>
      match fresh.lookup f.1 with
      | some content => content != f.2
      | none => false).map (·.1)
    missing := pathsOnlyIn written fresh
    extra := pathsOnlyIn fresh written }

def toJson (c : Comparison) : Json :=
  .obj [("ok", .bool c.ok), ("mismatches", .strs c.mismatches), ("missing", .strs c.missing),
    ("extra", .strs c.extra)]

end Comparison

/-- Why reports cannot be verified. -/
inductive VerifyError where
  | noDirectory (path : String)
  | notDirectory (path : String)
  | obstacle (o : Obstacle)
  deriving DecidableEq, Repr

namespace VerifyError

def text : VerifyError → String
  | .noDirectory path => "Reports directory does not exist: " ++ path
  | .notDirectory path => "Reports path is not a directory: " ++ path
  | .obstacle o => o.text

end VerifyError

/-- The outcome of a verification, and what was logged on the way. -/
structure Verification where
  log : List LogRecord
  result : Except VerifyError Comparison

/-- A name that is not among those taken: the usual one, or one that is longer than all of them. -/
def freshName (taken : List String) : String :=
  if taken.contains "tmpdir" then
    String.ofList ("tmpdir".toList ++ taken.flatMap (·.toList.map fun _ => '_'))
  else "tmpdir"

/-- A path for a new directory in one that is there. -/
def scratch (s : Store) (dir : String) : String :=
  Path.join dir (freshName (((s.list dir).toOption.getD []).map (·.1)))

/-- Compares the reports in a directory with those of a new run, which are written to a new directory
under the path `temp`. That one is still there when the first is read. -/
def verify (s : Store) (root dir : String) (temp : String := scratch s "/") : Verification :=
  match s.entry? dir with
  | none => ⟨[], .error (.noDirectory dir)⟩
  | some (.dir _) =>
    match s.makeNew temp with
    | .error e => ⟨[], .error (.obstacle (.unwritable e))⟩
    | .ok s =>
      let run := generate s root (some temp) none
      match run.result with
      | .error o => ⟨run.log, .error (.obstacle o)⟩
      | .ok (_, after) =>
        ⟨run.log, .ok (Comparison.ofContents (after.contents dir) (after.contents temp))⟩
  | some _ => ⟨[], .error (.notDirectory dir)⟩

end GoAtlas.Report
