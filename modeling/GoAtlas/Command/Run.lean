import GoAtlas.Command.Arguments
import GoAtlas.Report.Verify

namespace GoAtlas.Command

open Files Report

/-- What a command leaves behind: its exit code, what it says, and the store. -/
structure Outcome where
  code : Nat
  output : String := ""
  errors : String := ""
  store : Store

/-- The lines of log records from a level on. -/
def logText (level : LogLevel) (log : List LogRecord) : String :=
  String.join ((log.filter fun r => level.rank ≤ r.level.rank).map (·.line))

/-- The counts of a summary in two lines. -/
def countsText (s : Summary) : String :=
  let count (label : String) {α : Type} (l : List α) := label ++ ": " ++ toString l.length
  let f := s.findings
  "  ".intercalate ["packages: " ++ toString s.packages, count "symbols" f.symbols,
    count "unused" f.unused, count "complex" f.complex, count "if-init" f.initializers,
    count "boolean-branching" f.switchable] ++ "\n"
  ++ "  ".intercalate [count "deep-if-else" f.nestings, count "error-wrapping" f.wrappings,
    count "missing-context" f.contexts, count "env-booleans" f.flags] ++ "\n"

/-- A line for each path of a list, behind a label. -/
def pathLines (label : String) (paths : List String) : String :=
  String.join (paths.map fun p => label ++ ": " ++ p ++ "\n")

def errorLine (message : String) : String :=
  "error: " ++ message ++ "\n"

/-- The end of a command that could not go on. -/
def stopped (s : Store) (log : String) (o : Obstacle) : Except Obstacle Outcome :=
  match o with
  | .undecodable | .unwritable _ => .error o
  | _ => .ok { code := 2, errors := log ++ errorLine o.text, store := s }

def analyze (s : Store) (level : LogLevel) (root : String) (out package : Option String) :
    Except Obstacle Outcome :=
  let run := generate s root out package
  let log := logText level run.log
  match run.result with
  | .ok (summary, s) => .ok { code := 0, output := countsText summary, errors := log, store := s }
  | .error o => stopped s log o

/-- The directory whose reports are verified. -/
def reportsDir (s : Store) (root : String) : Option String → Except Obstacle String
  | some dir => (s.resolve dir).mapError .unwritable
  | none => do Settings.resolveOutput s root (← Settings.load s root).outputDir

def verifyIn (s : Store) (level : LogLevel) (root dir temp : String) : Except Obstacle Outcome :=
  let v := verify s root dir temp
  let log := logText level v.log
  match v.result with
  | .ok c =>
    .ok {
      code := if c.ok then 0 else 1
      errors := log ++ pathLines "missing" c.missing ++ pathLines "extra" c.extra
        ++ pathLines "mismatches" c.mismatches
      store := s }
  | .error (.obstacle o) => stopped s log o
  | .error e =>
    .ok { code := 2, errors := log ++ pathLines "reports-dir" [dir] ++ errorLine e.text, store := s }

/-- Runs a command on a store; `temp` is the path of the new directory that a verification needs. A text
that cannot be decoded stops it without an outcome, and so do a path that leads into a loop of links and
a report that cannot be written. -/
def run (s : Store) (i : Invocation) (temp : String := scratch s "/") : Except Obstacle Outcome :=
  match i.task with
  | .analyze root out package => do
    let root ← (s.resolve root).mapError .unwritable
    let out ← out.mapM fun dir => (s.resolve dir).mapError .unwritable
    analyze s i.level root out package
  | .verify root reports => do
    let root ← (s.resolve root).mapError .unwritable
    match reportsDir s root reports with
    | .ok dir => verifyIn s i.level root dir temp
    | .error o => stopped s "" o

end GoAtlas.Command
