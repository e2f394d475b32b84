import GoAtlas.Report.Records
import GoAtlas.Workspace.Load

namespace GoAtlas.Report

open Files

/-- What a report run wrote. -/
structure Summary where
  packages : Nat
  findings : Findings
  cycles : Nat
  reports : List String

namespace Summary

def counts (s : Summary) : List (String × Nat) :=
  [("package_count", s.packages), ("symbol_count", s.findings.symbols.length),
    ("unused_count", s.findings.unused.length), ("complexity_count", s.findings.complex.length),
    ("if_init_count", s.findings.initializers.length),
    ("boolean_branching_count", s.findings.switchable.length),
    ("deep_if_else_count", s.findings.nestings.length),
    ("error_wrapping_count", s.findings.wrappings.length),
    ("missing_context_count", s.findings.contexts.length),
    ("env_booleans_count", s.findings.flags.length), ("cycle_count", s.cycles)]

def toJson (s : Summary) : Json :=
  .obj (s.counts.map (fun (k, n) => (k, .int n)) ++ [("reports", .strs s.reports)])

end Summary

/-- The packages a run is limited to. -/
def selectPackages (ws : Workspace) : Option String → Except Obstacle (List Package)
  | none => .ok ws.packages
  | some reference =>
    match ws.package? (ws.packagePath reference) with
    | some p => .ok [p]
    | none =>
      .error (.failure { kind := .invalidOperation, message := "package not found: " ++ reference })

/-- The outcome of a run that writes to a store: what it logged, and the summary with the store
after it. -/
structure Run where
  log : List LogRecord
  result : Except Obstacle (Summary × Store)

/-- Writes texts into a directory that is there. -/
def writeTexts (dir : String) (texts : List (String × String)) (s : Store) :
    Except AccessError Store :=
  texts.foldlM (fun s (name, text) => s.writeFile (Path.join dir name) text.toUTF8) s

/-- Writes texts into a directory, which is made if it is missing. -/
def writeAll (s : Store) (dir : String) (texts : List (String × String)) :
    Except AccessError Store := do
  writeTexts dir texts (← s.makeDirs dir)

/-- What is to be written about selected packages of a workspace, with its summary and what is logged
on the way. -/
structure Draft where
  log : List LogRecord
  summary : Summary
  texts : List (String × String)

/-- The reports on selected packages of a workspace, for a directory. -/
def draft (c : Settings) (out : String) (ws : Workspace) (packages : List Package) : Draft :=
  let (index, session) := Session.freshIndex { workspace := ws }
  let findings := Findings.inPackages c index.referenced packages
  let (dependencies, session) := Session.dependencies session
  let texts := texts ws.root findings dependencies
  { log := session.log
    summary := {
      packages := packages.length, findings, cycles := dependencies.cycles.length
      reports := texts.map fun (name, _) => Path.join out name }
    texts }

/-- Writes the reports on selected packages of a workspace. -/
def onWorkspace (s : Store) (c : Settings) (out : String) (ws : Workspace)
    (packages : List Package) : Run :=
  let d := draft c out ws packages
  match writeAll s out d.texts with
  | .error e => ⟨d.log, .error (.unwritable e)⟩
  | .ok after =>
    { log := d.log ++ [⟨.info, "artifacts.write",
        "wrote " ++ toString d.texts.length ++ " reports to " ++ out⟩]
      result := .ok (d.summary, after) }

/-- The reports on a workspace, limited to a package if one is given. -/
def onLoaded (s : Store) (c : Settings) (out : String) (package? : Option String)
    (ws : Workspace) : Run :=
  match selectPackages ws package? with
  | .error e => ⟨[], .error e⟩
  | .ok packages => onWorkspace s c out ws packages

/-- The settings of a run and the directory it writes to, which the settings give if none is told. -/
def prepare (s : Store) (root : String) (out? : Option String) : Except Obstacle (Settings × String) :=
  do
    let c ← Settings.load s root
    let out ←
      match out? with
      | some out => pure out
      | none => Settings.resolveOutput s root c.outputDir
    pure (c, out)

/-- Reports on the workspace at `root`. -/
def generate (s : Store) (root : String) (out? package? : Option String) : Run :=
  match prepare s root out? with
  | .error e => ⟨[], .error e⟩
  | .ok (c, out) =>
    match Load.workspace s root c.respectIgnore with
    | (.error e, log) => ⟨log, .error e⟩
    | (.ok ws, log) =>
      let run := onLoaded s c out package? ws
      { run with log := log ++ run.log }

end GoAtlas.Report
