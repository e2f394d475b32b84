import GoAtlas.Loose.Real
import GoAtlas.Text.Case
import GoAtlas.Text.Split

namespace GoAtlas.Loose

inductive Value where
  | null
  | bool (b : Bool)
  | int (n : Int)
  | real (x : Real)
  | text (s : String)
  | moment
  | list (items : List Value)
  | table (entries : List (String × Value))
  deriving Repr, Inhabited

/-- Why a value does not fit. -/
inductive Fault where
  | intType
  | intParsing
  | intSize
  | intFraction
  | notFinite
  | tooSmall
  | boolType
  | boolParsing
  | textType
  | notListed
  | recordType
  | unknownKey
  | missing
  | inconsistent
  deriving DecidableEq, Repr

namespace Fault

def text : Fault → String
  | .intType => "int_type"
  | .intParsing => "int_parsing"
  | .intSize => "int_parsing_size"
  | .intFraction => "int_from_float"
  | .notFinite => "finite_number"
  | .tooSmall => "greater_than_equal"
  | .boolType => "bool_type"
  | .boolParsing => "bool_parsing"
  | .textType => "string_type"
  | .notListed => "literal_error"
  | .recordType => "model_type"
  | .unknownKey => "extra_forbidden"
  | .missing => "missing"
  | .inconsistent => "value_error"

end Fault

/-- A fault with the keys that lead to it. -/
structure Issue where
  loc : List String
  fault : Fault
  deriving DecidableEq, Repr

/-- Issues by their keys and then by their texts. -/
def sortIssues (l : List Issue) : List Issue :=
  l.mergeSort fun a b => decide (a.loc < b.loc) || (a.loc == b.loc && decide (a.fault.text ≤ b.fault.text))

/-- Blanks dropped from both ends of a numeral. -/
def isTrimmed (c : Char) : Bool :=
  let n := c.toNat
  (0x09 ≤ n && n ≤ 0x0D) || n == 0x20 || n == 0x85 || n == 0xA0 || n == 0x1680
    || (0x2000 ≤ n && n ≤ 0x200A) || n == 0x2028 || n == 0x2029 || n == 0x202F || n == 0x205F
    || n == 0x3000

/-- A number continued by digits, with single underscores between them. -/
def readDigits (n : Nat) : List Char → Option Nat
  | [] => some n
  | [c] => if c.isDigit then some (10 * n + (c.toNat - 0x30)) else none
  | c :: d :: r =>
    if c.isDigit then readDigits (10 * n + (c.toNat - 0x30)) (d :: r)
    else if c = '_' && d.isDigit then readDigits n (d :: r)
    else none

def readNatural : List Char → Option Nat
  | [] => none
  | c :: r => if c.isDigit then readDigits 0 (c :: r) else none

/-- A numeral with an optional sign and an optional fraction of zeros. -/
def readInteger (cs : List Char) : Option Int :=
  let (negative, unsigned) :=
    match cs with
    | '-' :: r => (true, r)
    | '+' :: r => (false, r)
    | r => (false, r)
  let whole := unsigned.takeWhile (· != '.')
  let fraction := (unsigned.dropWhile (· != '.')).drop 1
  if fraction.all (· == '0') then
    (readNatural whole).map fun n => if negative then -(n : Int) else n
  else none

/-- Longer numerals are refused. -/
def maxNumeral : Nat := 4300

def intOfText (s : String) : Except Fault Int :=
  let cs := ((s.toList.dropWhile isTrimmed).reverse.dropWhile isTrimmed).reverse
  if maxNumeral < cs.length then .error .intSize
  else
    match readInteger cs with
    | some n => .ok n
    | none => .error .intParsing

def intOfReal (x : Real) : Except Fault Int :=
  match x with
  | .finite _ _ =>
    match x.whole? with
    | some n => if -Int.pow 2 63 < n ∧ n < Int.pow 2 63 then .ok n else .error .intSize
    | none => .error .intFraction
  | _ => .error .notFinite

namespace Value

def toInt : Value → Except Fault Int
  | .int n => .ok n
  | .bool b => .ok (if b then 1 else 0)
  | .real x => intOfReal x
  | .text s => intOfText s
  | _ => .error .intType

/-- A whole number that is not negative. -/
def toNatural (v : Value) : Except Fault Int := do
  let n ← v.toInt
  if n < 0 then .error .tooSmall else .ok n

def toBool : Value → Except Fault Bool
  | .bool b => .ok b
  | .int n => if n = 0 then .ok false else if n = 1 then .ok true else .error .boolParsing
  | .real x =>
    match x.whole? with
    | some 0 => .ok false
    | some 1 => .ok true
    | _ => .error .boolType
  | .text s =>
    let l := Text.lower s
    if ["1", "true", "t", "yes", "y", "on"].contains l then .ok true
    else if ["0", "false", "f", "no", "n", "off"].contains l then .ok false
    else .error .boolParsing
  | _ => .error .boolType

def toText : Value → Except Fault String
  | .text s => .ok s
  | _ => .error .textType

def toOptionalText : Value → Except Fault (Option String)
  | .null => .ok none
  | v => some <$> v.toText

/-- One of a list of choices, by its text. -/
def toChoice {α : Type} (choices : List (String × α)) : Value → Except Fault α
  | .text s =>
    match choices.lookup s with
    | some a => .ok a
    | none => .error .notListed
  | _ => .error .notListed

end Value

/-- A record being read: the value so far, or any number of issues. -/
structure Reading (α : Type) where
  issues : List Issue
  value? : Option α

namespace Reading

variable {α β : Type}

def done (a : α) : Reading α := ⟨[], some a⟩

def failed (i : Issue) : Reading α := ⟨[i], none⟩

/-- Applies what was read of a function to what was read of its argument, keeping all issues. -/
def seq (f : Reading (α → β)) (a : Reading α) : Reading β :=
  ⟨f.issues ++ a.issues, do pure ((← f.value?) (← a.value?))⟩

def map (f : α → β) (a : Reading α) : Reading β :=
  ⟨a.issues, a.value?.map f⟩

/-- The same issues under a further key. -/
def under (key : String) (r : Reading α) : Reading α :=
  { r with issues := r.issues.map fun i => { i with loc := key :: i.loc } }

/-- The value, if there is no issue at all. -/
def result (r : Reading α) : Except (List Issue) α :=
  match r.issues, r.value? with
  | [], some a => .ok a
  | is, _ => .error (sortIssues is)

end Reading

/-- The field `key` of a table, read by `read`; a missing field takes the default, if there is one. -/
def field {α : Type} (entries : List (String × Value)) (key : String) (default? : Option α)
    (read : Value → Except Fault α) : Reading α :=
  match entries.lookup key, default? with
  | some v, _ =>
    match read v with
    | .ok a => .done a
    | .error f => .failed ⟨[key], f⟩
  | none, some a => .done a
  | none, none => .failed ⟨[key], .missing⟩

/-- A section: a table of its own under `key`. -/
def subrecord {α : Type} (entries : List (String × Value)) (key : String) (default : α)
    (read : List (String × Value) → Reading α) : Reading α :=
  match entries.lookup key with
  | none => .done default
  | some (.table inner) => (read inner).under key
  | some _ => .failed ⟨[key], .recordType⟩

/-- An issue for each key that is not known. -/
def unknownKeys (known : List String) (entries : List (String × Value)) : List Issue :=
  (entries.filter fun e => !known.contains e.1).map fun e => ⟨[e.1], .unknownKey⟩

end GoAtlas.Loose
