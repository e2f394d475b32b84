import GoAtlas.Config.Toml
import GoAtlas.Files.Store
import GoAtlas.Finding.Complexity
import GoAtlas.Finding.Flag
import GoAtlas.Finding.Nesting
import GoAtlas.Finding.Switchable
import GoAtlas.Finding.Unused
import GoAtlas.Finding.Wrapping
import GoAtlas.Obstacle

namespace GoAtlas

open Finding Loose

structure Settings where
  outputDir : String := ".goscope"
  respectIgnore : Bool := false
  workers : Int := 0
  leastPaths : Int := 10
  unused : UnusedSymbol.Options := {}
  leastBranches : Int := 2
  nesting : Nesting.Limits := ⟨2, 3⟩
  severity : Severity := .critical
  leastCalls : Int := 1
  deriving DecidableEq, Repr

namespace Settings

abbrev Entries := List (String × Value)

/-- A section with a single field. -/
def single {α : Type} (key : String) (default : α) (read : Value → Except Fault α)
    (entries : Entries) : Reading α :=
  let r := Loose.field entries key (some default) read
  { r with issues := r.issues ++ unknownKeys [key] entries }

/-- A section with two fields. -/
def double {α β γ : Type} (make : α → β → γ) (key₁ : String) (default₁ : α)
    (read₁ : Value → Except Fault α) (key₂ : String) (default₂ : β)
    (read₂ : Value → Except Fault β) (entries : Entries) : Reading γ :=
  let r := ((Reading.done make).seq (Loose.field entries key₁ (some default₁) read₁)).seq
    (Loose.field entries key₂ (some default₂) read₂)
  { r with issues := r.issues ++ unknownKeys [key₁, key₂] entries }

/-- The keys at the top of the settings. -/
def keys : List String :=
  ["output_dir", "respect_gitignore", "max_workers", "complexity", "unused", "boolean_branching",
    "deep_if_else", "error_wrapping", "env_booleans"]

/-- Reads settings; a value out of range that has a natural replacement is replaced. -/
def read (entries : Entries) : Except (List Issue) Settings :=
  let r : Reading Settings :=
    (((((((((Reading.done Settings.mk
      ).seq (Loose.field entries "output_dir" (some ".goscope") (·.toText))
      ).seq (Loose.field entries "respect_gitignore" (some false) (·.toBool))
      ).seq (Loose.field entries "max_workers" (some 0) (·.toNatural))
      ).seq (subrecord entries "complexity" 10
        (single "min_complexity" 10 fun v => ComplexFunction.minimum <$> v.toNatural))
      ).seq (subrecord entries "unused" {}
        (double UnusedSymbol.Options.mk "include_exported" false (·.toBool)
          "include_tests" false (·.toBool)))
      ).seq (subrecord entries "boolean_branching" 2
        (single "min_branches" 2 fun v => (fun n => max n 2) <$> v.toInt))
      ).seq (subrecord entries "deep_if_else" ⟨2, 3⟩
        (double Nesting.limits "max_nesting" 2 (·.toInt) "min_else_lines" 3 (·.toInt)))
      ).seq (subrecord entries "error_wrapping" .critical
        (single "severity" .critical
          (·.toChoice ([Severity.critical, .warning, .info].map fun s => (s.text, s)))))
      ).seq (subrecord entries "env_booleans" 1
        (single "max_depth" 1 fun v => Flag.minimum <$> v.toInt))
  { r with issues := r.issues ++ unknownKeys keys entries }.result

/-- The name of the settings file. -/
def fileName : String := "goscope.toml"

/-- The settings of a root directory; without a file they are the usual ones. -/
def load (s : Files.Store) (root : String) : Except Obstacle Settings :=
  let path := Path.join root fileName
  if s.isFile path then
    match (s.read path).toOption.bind Text.Utf8.decode? with
    | none => .error .undecodable
    | some text =>
      match Toml.parse? text with
      | none => .error (.config ("Invalid TOML in " ++ path) none)
      | some entries =>
        match read entries with
        | .ok settings => .ok settings
        | .error issues => .error (.config ("Invalid config in " ++ path) (some issues))
  else .ok {}

/-- The directory for reports below a root: a path that does not lead out of it. -/
def resolveOutput (s : Files.Store) (root dir : String) : Except Obstacle String :=
  if dir = "" then .error (.config "output_dir must be a non-empty relative path" none)
  else if Text.beginsWith dir "~" || Path.isAbsolute dir then
    .error (.config "output_dir must be a relative path within the workspace root" none)
  else do
    let base ← (s.resolve root).mapError .unwritable
    let output ← (s.resolve (Path.join base dir)).mapError .unwritable
    if (Path.below? base output).isSome then .ok output
    else .error (.config ("output_dir '" ++ dir ++ "' escapes the workspace root") none)

def toJson (c : Settings) : Json :=
  .obj [("output_dir", .str c.outputDir), ("respect_gitignore", .bool c.respectIgnore),
    ("max_workers", .int c.workers),
    ("complexity", .obj [("min_complexity", .int c.leastPaths)]),
    ("unused", .obj [("include_exported", .bool c.unused.exported),
      ("include_tests", .bool c.unused.tests)]),
    ("boolean_branching", .obj [("min_branches", .int c.leastBranches)]),
    ("deep_if_else", .obj [("max_nesting", .int c.nesting.depth),
      ("min_else_lines", .int c.nesting.lines)]),
    ("error_wrapping", .obj [("severity", .str c.severity.text)]),
    ("env_booleans", .obj [("max_depth", .int c.leastCalls)])]

end Settings

end GoAtlas
