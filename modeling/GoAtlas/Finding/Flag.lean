import GoAtlas.Finding.Place
import GoAtlas.Syntax.Statement

namespace GoAtlas.Finding

open Syntax

def flagNames : List String :=
  ["istest", "isprod", "isproduction", "isdev", "isdevelopment", "islocal", "isstaging", "isdebug",
    "testmode", "devmode", "debugmode", "prodmode", "production", "debug", "testing"]

def isFlagName (name : String) : Bool :=
  flagNames.contains (Text.lower name)

/-- What a flag is better replaced with. -/
inductive Replacement where
  | implementations
  | value
  deriving DecidableEq, Repr

namespace Replacement

def text : Replacement → String
  | .implementations => "interface_implementation"
  | .value => "concrete_value"

def ofName (name : String) : Replacement :=
  let l := Text.lower name
  if ["mode", "prod", "test", "dev", "staging", "local"].any (Text.occursIn · l) then
    .implementations
  else if Text.occursIn "debug" l then .value
  else .implementations

def advice (name : String) : Replacement → String
  | .value =>
    "Replace '" ++ name ++ "' parameter with the concrete value it controls. "
      ++ "Resolve the value at initialization time"
  | .implementations =>
    "Replace '" ++ name ++ "' parameter with an interface. Define separate "
      ++ "implementations for each environment (e.g., ProdService, TestService)"

end Replacement

/-- The name of what a call calls, if it has one. -/
def calleeName (source : ByteArray) (call : Tree) : String :=
  match call.part? .function with
  | none => ""
  | some function =>
    if function.kind = .identifier then function.text source
    else if function.kind = .selectorExpression then
      match Tree.selection? source function with
      | some (operand, field) => operand ++ "." ++ field
      | none => Tree.text? source (function.part? .field)
    else ""

/-- How often a name is an argument of a call. -/
def argumentUses (source : ByteArray) (name : String) (call : Tree) : Nat :=
  ((((call.part? .arguments).map Tree.named).getD []).filter fun a =>
    a.kind = .identifier && a.text source = name).length

/-- The named callees that are handed a name, once for each time, in the order of the walk. -/
def receivers (source : ByteArray) (name : String) (body : Option Tree) : List String :=
  match body with
  | none => []
  | some b =>
    (b.walk.filter (·.kind = .callExpression)).flatMap fun call =>
      let callee := calleeName source call
      if callee = "" then [] else List.replicate (argumentUses source name call) callee

/-- The truth-valued parameters of a function. -/
def boolParameters (source : ByteArray) (t : Tree) : List Tree :=
  let parameters := ((t.part? .parameters).map Tree.named).getD []
  (parameters.filter fun p =>
    p.kind = .parameterDeclaration
      && ((p.part? .type).map fun type =>
        type.kind = .typeIdentifier && type.text source = "bool").getD false).flatMap
    (·.parts .name)

/-- A flag with the functions it is handed to. -/
structure Flag where
  location : Location
  name : String
  chain : List String
  deriving DecidableEq, Repr

namespace Flag

def defaultLeast : Int := 1

/-- The least number of calls that is reported. -/
def minimum (n : Int) : Int :=
  if 0 ≤ n then n else defaultLeast

def depth (g : Flag) : Nat :=
  g.chain.length - 1

def inFunction (least : Int) (f : SourceFile) (t : Tree) : List Flag :=
  let function := t.functionName f.content
  (boolParameters f.content t).filterMap fun parameter =>
    let name := f.text parameter
    let calls := receivers f.content name (t.part? .body)
    if isFlagName name && least ≤ calls.length then
      some ⟨Location.of f function parameter.start, name, function :: calls⟩
    else none

def inFile (least : Int) (f : SourceFile) : List Flag :=
  f.functions.flatMap (inFunction least f)

def toJson (g : Flag) : Json :=
  let replacement := Replacement.ofName g.name
  .obj (g.location.fields ++ [("parameter_name", .str g.name), ("parameter_type", .str "bool"),
    ("propagation_depth", .int g.depth), ("call_chain", .strs g.chain),
    ("suggested_pattern", .str replacement.text),
    ("suggestion", .str (replacement.advice g.name))])

end Flag

end GoAtlas.Finding
