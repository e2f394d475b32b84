import GoAtlas.Dict
import GoAtlas.Log
import GoAtlas.Text.Split

namespace GoAtlas.Command

/-- What is to be done. -/
inductive Task where
  | analyze (root : String) (out package : Option String)
  | verify (root : String) (reports : Option String)
  deriving DecidableEq, Repr

/-- A task, and the least level of messages to be shown. -/
structure Invocation where
  level : LogLevel := .warning
  task : Task
  deriving DecidableEq, Repr

/-- What arguments ask for. -/
inductive Request where
  | run (i : Invocation)
  | help
  /-- The arguments make no sense. -/
  | misuse
  deriving DecidableEq, Repr

/-- What an argument is, given the options that are known. -/
inductive Word where
  | value
  | option (name : String) (value? : Option String)
  | ambiguous
  | unknown
  deriving DecidableEq, Repr

namespace Word

/-- Digits, perhaps with a point and further digits. -/
def isNumber (cs : List Char) : Bool :=
  let fraction := cs.dropWhile Char.isDigit
  match fraction with
  | [] => !cs.isEmpty
  | '.' :: digits => !digits.isEmpty && digits.all Char.isDigit
  | _ => false

/-- The name of an option and what follows an equals sign. -/
def parts (arg : String) : String × Option String :=
  match Text.cut? "=" arg with
  | some (name, text) => (name, some text)
  | none => (arg, none)

/-- An argument that starts with a dash and is no option as it stands. -/
def shortened (options : List String) (arg : String) : Word :=
  let (name, value?) := parts arg
  if Text.beginsWith arg "--" then
    match options.filter (Text.beginsWith · name) with
    | [full] => .option full value?
    | [] => .unknown
    | _ => .ambiguous
  else if Text.beginsWith arg "-h" then .option "-h" none
  else .unknown

/-- The kind of an argument. Numbers and texts with blanks are values even behind a dash. -/
def of (options : List String) (arg : String) : Word :=
  let (name, value?) := parts arg
  if !Text.beginsWith arg "-" || arg = "-" then .value
  else if options.contains arg then .option arg none
  else if options.contains name then .option name value?
  else
    match shortened options arg with
    | .unknown =>
      if isNumber (arg.toList.drop 1) || arg.toList.contains ' ' then .value else .unknown
    | w => w

/-- Whether an argument before two dashes may mean several options. -/
def anyAmbiguous (options args : List String) : Bool :=
  (args.takeWhile (· != "--")).any fun arg => of options arg = .ambiguous

end Word

def helpOptions : List String := ["-h", "--help"]

def isHelp (option : String) : Bool := helpOptions.contains option

/-- What has been read of a task's arguments: its root, its options, and whether anything was left
over. -/
structure Draft where
  root : Option String := none
  options : Dict String String := []
  leftOver : Bool := false

namespace Draft

/-- Takes up an argument that is no option; only the first is expected. -/
def addValue (d : Draft) (value : String) : Draft :=
  match d.root with
  | none => { d with root := some value }
  | some _ => { d with leftOver := true }

def rootOrHere (d : Draft) : String :=
  d.root.getD "."

/-- The request made by all arguments together. -/
def request (level : LogLevel) (task : Draft → Task) (d : Draft) : Request :=
  if d.leftOver then .misuse else .run ⟨level, task d⟩

end Draft

/-- Reads the arguments of a task with the given options, each with a value. After two dashes there
are no options; once there is a root, they have to stand right behind it. -/
def readTask (options : List String) (request : Draft → Request) (d : Draft) :
    List String → Request
  | [] => request d
  | "--" :: rest =>
    if d.root.isSome then .misuse else request (rest.foldl Draft.addValue d)
  | arg :: rest =>
    match Word.of (helpOptions ++ options) arg with
    | .value =>
      match rest with
      | "--" :: values =>
        if d.root.isSome then .misuse else request (values.foldl Draft.addValue (d.addValue arg))
      | rest => readTask options request (d.addValue arg) rest
    | .unknown => readTask options request { d with leftOver := true } rest
    | .ambiguous => .misuse
    | .option name (some value) =>
      if isHelp name then .misuse
      else readTask options request { d with options := d.options.put name value } rest
    | .option name none =>
      if isHelp name then .help
      else
        match rest with
        | value :: rest =>
          if value != "--" && Word.of (helpOptions ++ options) value = .value then
            readTask options request { d with options := d.options.put name value } rest
          else .misuse
        | [] => .misuse

/-- Reads the arguments of a task, all of whose options have to be clear. -/
def readClear (options : List String) (request : Draft → Request) (d : Draft)
    (args : List String) : Request :=
  if Word.anyAmbiguous (helpOptions ++ options) args then .misuse
  else readTask options request d args

/-- Reads the arguments of the task with a given name. -/
def readNamed (level : LogLevel) (leftOver : Bool) (name : String) (args : List String) : Request :=
  if name = "analyze" then
    readClear ["--out-dir", "--package"]
      (Draft.request level fun d =>
        .analyze d.rootOrHere (d.options.lookup "--out-dir") (d.options.lookup "--package"))
      { leftOver } args
  else if name = "verify" then
    readClear ["--reports-dir"]
      (Draft.request level fun d => .verify d.rootOrHere (d.options.lookup "--reports-dir"))
      { leftOver } args
  else .misuse

/-- The level a text stands for, in upper or lower case. -/
def levelOf? (s : String) : Option LogLevel :=
  [LogLevel.debug, .info, .warning, .error].find? (·.text == s.map Char.toUpper)

def levelOption : String := "--log-level"

/-- Reads arguments up to the name of a task, and then those of the task. -/
def readFrom (level : LogLevel) (leftOver : Bool) : List String → Request
  | [] => .misuse
  | arg :: rest =>
    match Word.of (helpOptions ++ [levelOption]) arg with
    | .value => readNamed level leftOver arg rest
    | .unknown => readFrom level true rest
    | .ambiguous => .misuse
    | .option name (some value) =>
      if isHelp name then .misuse
      else
        match levelOf? value with
        | some level => readFrom level leftOver rest
        | none => .misuse
    | .option name none =>
      if isHelp name then .help
      else
        match rest with
        | value :: rest =>
          match levelOf? value with
          | some level => readFrom level leftOver rest
          | none => .misuse
        | [] => .misuse

def read (args : List String) : Request :=
  if Word.anyAmbiguous (helpOptions ++ [levelOption]) args then .misuse
  else readFrom .warning false args

end GoAtlas.Command
