import GoAtlas.Command.Run

namespace GoAtlas

open Files Command

/-- What stands at a path on disk; a link is kept as one to its final target. -/
partial def diskEntry (path : String) : IO (Option Entry) := do
  let here ← IO.currentDir
  let place := here / path
  try
    match (← place.symlinkMetadata).type with
    | .dir =>
      let children ← (← place.readDir).toList.filterMapM fun child => do
        pure ((← diskEntry (path ++ "/" ++ child.fileName)).map fun e => (child.fileName, e))
      pure (some (.dir children))
    | .symlink => pure (some (.link (← IO.FS.realPath path).toString))
    | _ => pure (some (.file (← IO.FS.readBinFile path)))
  catch _ => pure none

/-- A store with what is on disk below a path added to it. -/
def addFromDisk (s : Store) (path : String) : IO Store := do
  match ← diskEntry (Path.join s.cwd path) with
  | some e => pure { s with root := Entry.put e (s.names path) s.root }
  | none => pure s

/-- The paths a task looks at. -/
def lookedAt : Task → List String
  | .analyze root out _ => root :: out.toList
  | .verify root reports => root :: reports.toList

/-- Writes the files that differ from those of another store. -/
def saveChanges (old new : Store) : IO Unit :=
  for (path, content) in new.contents "/" do
    if (old.read ("/" ++ path)).toOption != some content then
      let place := "/" ++ path
      IO.FS.createDirAll (Path.ofParts (Path.parts place).dropLast)
      IO.FS.writeBinFile place content

/-- Runs a command on what is on disk. What is written only to be compared stays in the store. -/
def runOnDisk (i : Invocation) : IO UInt32 := do
  let s ← (lookedAt i.task).foldlM addFromDisk { cwd := (← IO.currentDir).toString }
  let tempDir := (← IO.getEnv "TMPDIR").getD "/tmp"
  let s := s.makeDir tempDir
  match run s i (Report.scratch s tempDir) with
  | .error o =>
    IO.eprint (errorLine o.text)
    pure 1
  | .ok outcome =>
    saveChanges s outcome.store
    IO.print outcome.output
    IO.eprint outcome.errors
    pure (UInt32.ofNat outcome.code)

end GoAtlas

/-- The program: `analyze` writes reports on a workspace, `verify` compares them with new ones. -/
def main (args : List String) : IO UInt32 :=
  match GoAtlas.Command.read args with
  | .run i => GoAtlas.runOnDisk i
  | .help => do
    IO.println "usage: goscope [--log-level LEVEL] analyze|verify [root] [options]"
    pure 0
  | .misuse => do
    IO.eprintln "usage: goscope [--log-level LEVEL] analyze|verify [root] [options]"
    pure 2
