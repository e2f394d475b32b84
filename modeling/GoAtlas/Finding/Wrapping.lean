import GoAtlas.Finding.Place
import GoAtlas.Syntax.Statement

namespace GoAtlas.Finding

open Syntax

inductive Severity where
  | critical
  | warning
  | info
  deriving DecidableEq, Repr

namespace Severity

def text : Severity → String
  | .critical => "critical"
  | .warning => "warning"
  | .info => "info"

def rank : Severity → Nat
  | .critical => 0
  | .warning => 1
  | .info => 2

/-- A severity by its text; any other text counts as critical. -/
def ofText (s : String) : Severity :=
  ([Severity.critical, .warning, .info].find? (·.text == s)).getD .critical

/-- Whether findings of a severity are kept under a setting. -/
def keeps (setting found : Severity) : Bool :=
  found.rank ≤ setting.rank

end Severity

/-- What is wrong with a returned error. -/
inductive WrappingFault where
  /-- The error is returned as it came. -/
  | bareReturn
  /-- The cause is printed and not wrapped. -/
  | printedCause
  /-- The cause is wrapped without a message that says anything. -/
  | noContext
  deriving DecidableEq, Repr

namespace WrappingFault

def text : WrappingFault → String
  | .bareReturn => "bare_return"
  | .printedCause => "format_verb_v_instead_of_w"
  | .noContext => "no_context"

def severity : WrappingFault → Severity
  | .bareReturn | .printedCause => .critical
  | .noContext => .warning

end WrappingFault

/-- Messages that say nothing. -/
def genericMessages : List String :=
  ["", "error", "err", "failed", "failure", "fail", "something went wrong", "unexpected error"]

def isGenericMessage (message : String) : Bool :=
  genericMessages.contains (Text.lower message)

/-- Whether a function has a result of the type `error`. -/
def returnsError (source : ByteArray) (t : Tree) : Bool :=
  match t.part? .result with
  | none => false
  | some result =>
    if result.kind = .parameterList then
      (result.named.filter (·.kind = .parameterDeclaration)).any fun p =>
        Tree.text? source (p.part? .type) = "error"
    else result.kind = .typeIdentifier && result.text source = "error"

/-- The arguments of a call that formats an error, the first being a literal. -/
def formatArguments? (source : ByteArray) (e : Tree) : Option (Tree × List Tree) :=
  if e.kind != .callExpression then none
  else if ((e.part? .function).bind (Tree.selection? source)) != some ("fmt", "Errorf") then none
  else
    match Tree.dropComments (((e.part? .arguments).map Tree.named).getD []) with
    | format :: first :: more =>
      if format.kind = .interpretedStringLiteral || format.kind = .rawStringLiteral then
        some (format, first :: more)
      else none
    | _ => none

/-- The message of a format: its source without double quotes at the ends, the first verb that wraps
and what is then left of separators. -/
def formatMessage (format : String) : String :=
  let bare := Text.stripWith (· == '"') format
  let rest :=
    match Text.cut? "%w" bare with
    | some (before, after) => before ++ after
    | none => bare
  Text.stripRightWith (fun c => c == ':' || c == ' ') (Text.strip rest)

/-- What is wrong with a format and its arguments. -/
def formatFault? (source : ByteArray) (format : Tree) (arguments : List Tree) :
    Option WrappingFault :=
  let text := format.text source
  let wraps := Text.occursIn "%w" text
  let printsCause :=
    Text.occursIn "%v" text && !wraps
      && (arguments.getLast?.map fun a =>
        a.kind = .identifier && Name.isErrorVariable (a.text source)).getD false
  if printsCause then some .printedCause
  else if wraps && isGenericMessage (formatMessage text) then some .noContext
  else none

/-- What is wrong with a returned expression. -/
def returnFault? (source : ByteArray) (e : Tree) : Option WrappingFault :=
  if e.kind = .identifier then
    if Name.isErrorVariable (e.text source) then some .bareReturn else none
  else
    (formatArguments? source e).bind fun (format, arguments) =>
      formatFault? source format arguments

/-- The expressions a return statement returns. -/
def returned (t : Tree) : List Tree :=
  Tree.expressions? (t.named.find? (!·.isComment))

structure Wrapping where
  location : Location
  fault : WrappingFault
  code : String
  deriving DecidableEq, Repr

namespace Wrapping

def inStatement (f : SourceFile) (function : String) (t : Tree) : List Wrapping :=
  ((returned t).filterMap (returnFault? f.content)).map fun fault =>
    ⟨Location.of f function t.start, fault, Text.strip (f.text t)⟩

/-- The findings in a file that a severity setting keeps. -/
def inFile (setting : Severity) (f : SourceFile) : List Wrapping :=
  ((bodies f).filter fun (_, t, _) => returnsError f.content t).flatMap fun (name, _, body) =>
    ((body.walk.filter (·.kind = .returnStatement)).flatMap (inStatement f name)).filter
      fun w => setting.keeps w.fault.severity

def toJson (w : Wrapping) : Json :=
  .obj (w.location.fields ++ [("violation_type", .str w.fault.text), ("current_code", .str w.code),
    ("context_suggestion", .str (Name.phrase w.location.function)),
    ("severity", .str w.fault.severity.text)])

end Wrapping

end GoAtlas.Finding
