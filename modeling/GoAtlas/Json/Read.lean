import GoAtlas.Dict
import GoAtlas.Json.Value

namespace GoAtlas.Json

/-- A reader takes a value from the start of a text, if it can. -/
abbrev Reader (α : Type) := List Char → Option (α × List Char)

def isSpace (c : Char) : Bool := c = ' ' || c = '\t' || c = '\n' || c = '\r'

def skipSpace (cs : List Char) : List Char := cs.dropWhile isSpace

def hexValue? (c : Char) : Option Nat :=
  if c.isDigit then some (c.toNat - 0x30)
  else if 'a' ≤ c && c ≤ 'f' then some (c.toNat - 0x57)
  else if 'A' ≤ c && c ≤ 'F' then some (c.toNat - 0x37)
  else none

/-- Four hexadecimal digits. -/
def readUnit : Reader Nat
  | a :: b :: c :: d :: r => do
    let n ← [a, b, c, d].foldlM (fun n c => (hexValue? c).map (16 * n + ·)) 0
    some (n, r)
  | _ => none

def isHighSurrogate (n : Nat) : Bool := 0xD800 ≤ n && n < 0xDC00

def isLowSurrogate (n : Nat) : Bool := 0xDC00 ≤ n && n < 0xE000

/-- The character of one code unit; a surrogate alone is replaced. -/
def ofUnit (n : Nat) : Char :=
  if isHighSurrogate n || isLowSurrogate n then Char.ofNat 0xFFFD else Char.ofNat n

/-- A character written as code units: one, or a pair of surrogates. -/
def readUnits : Reader Char := fun cs => do
  let (n, r) ← readUnit cs
  if isHighSurrogate n then
    match r with
    | '\\' :: 'u' :: more =>
      match readUnit more with
      | some (m, more) =>
        if isLowSurrogate m then
          some (Char.ofNat (0x10000 + (n - 0xD800) * 0x400 + (m - 0xDC00)), more)
        else some (ofUnit n, r)
      | none => some (ofUnit n, r)
    | _ => some (ofUnit n, r)
  else some (ofUnit n, r)

/-- What a backslash and the characters after it stand for. -/
def readEscape : Reader Char
  | '"' :: r => some ('"', r)
  | '\\' :: r => some ('\\', r)
  | '/' :: r => some ('/', r)
  | 'b' :: r => some (Char.ofNat 0x08, r)
  | 'f' :: r => some (Char.ofNat 0x0C, r)
  | 'n' :: r => some ('\n', r)
  | 'r' :: r => some ('\r', r)
  | 't' :: r => some ('\t', r)
  | 'u' :: r => readUnits r
  | _ => none

/-- The characters up to the closing quote, of which there are at most `n`. -/
def readQuoted : Nat → Reader (List Char)
  | 0, _ => none
  | n + 1, cs =>
    match cs with
    | '"' :: r => some ([], r)
    | '\\' :: r => do
      let (c, r) ← readEscape r
      let (more, r) ← readQuoted n r
      some (c :: more, r)
    | c :: r =>
      if c.toNat < 0x20 then none
      else do
        let (more, r) ← readQuoted n r
        some (c :: more, r)
    | [] => none

/-- A text in quotes. -/
def readText : Reader String
  | '"' :: r => (readQuoted (r.length + 1) r).map fun (cs, r) => (String.ofList cs, r)
  | _ => none

/-- The number digits stand for. -/
def ofDigits (cs : List Char) : Nat :=
  cs.foldl (fun n c => 10 * n + (c.toNat - 0x30)) 0

/-- At least one digit. -/
def readDigits : Reader (List Char) := fun cs =>
  let digits := cs.takeWhile Char.isDigit
  if digits.isEmpty then none else some (digits, cs.drop digits.length)

/-- The digits before the point, with no zero in front of others. -/
def readWhole : Reader (List Char)
  | '0' :: r => some (['0'], r)
  | cs => readDigits cs

/-- The digits after a point, if there are any. -/
def readFraction (cs : List Char) : List Char × List Char :=
  match cs with
  | '.' :: r => (readDigits r).getD ([], cs)
  | _ => ([], cs)

/-- The exponent, if there is one. -/
def readExponent (cs : List Char) : Int × List Char :=
  match cs with
  | e :: r =>
    if e = 'e' || e = 'E' then
      let (negative, r) :=
        match r with
        | '-' :: r => (true, r)
        | '+' :: r => (false, r)
        | r => (false, r)
      match readDigits r with
      | some (digits, r) => (if negative then -(ofDigits digits : Int) else ofDigits digits, r)
      | none => (0, cs)
    else (0, cs)
  | [] => (0, cs)

/-- `mantissa` times ten to the `exponent`. -/
def ofExponent (mantissa exponent : Int) : Json :=
  if 0 ≤ exponent then .num (mantissa * Int.pow 10 exponent.toNat) 0
  else .num mantissa (-exponent).toNat

def readNumber : Reader Json := fun cs => do
  let (negative, r) :=
    match cs with
    | '-' :: r => (true, r)
    | r => (false, r)
  let (whole, r) ← readWhole r
  let (fraction, r) := readFraction r
  let (exponent, r) := readExponent r
  let n : Int := ofDigits (whole ++ fraction)
  some (ofExponent (if negative then -n else n) (exponent - fraction.length), r)

/-- The items of a list read by `value`, up to its closing bracket. -/
def readItems (value : Reader Json) : Nat → Reader (List Json)
  | 0, _ => none
  | n + 1, cs => do
    let (j, r) ← value (skipSpace cs)
    match skipSpace r with
    | ']' :: r => some ([j], r)
    | ',' :: r =>
      let (js, r) ← readItems value n r
      some (j :: js, r)
    | _ => none

/-- The fields of an object, their values read by `value`, up to its closing brace. -/
def readFields (value : Reader Json) (fields : Dict String Json) : Nat → Reader (Dict String Json)
  | 0, _ => none
  | n + 1, cs => do
    let (key, r) ← readText (skipSpace cs)
    match skipSpace r with
    | ':' :: r =>
      let (j, r) ← value (skipSpace r)
      match skipSpace r with
      | '\x7d' :: r => some (fields.put key j, r)
      | ',' :: r => readFields value (fields.put key j) n r
      | _ => none
    | _ => none

/-- A value whose lists and objects nest at most `depth` deep. -/
def readValue : Nat → Reader Json
  | 0, _ => none
  | depth + 1, cs =>
    match cs with
    | 'n' :: 'u' :: 'l' :: 'l' :: r => some (.null, r)
    | 't' :: 'r' :: 'u' :: 'e' :: r => some (.bool true, r)
    | 'f' :: 'a' :: 'l' :: 's' :: 'e' :: r => some (.bool false, r)
    | '"' :: _ => (readText cs).map fun (s, r) => (.str s, r)
    | '[' :: r =>
      match skipSpace r with
      | ']' :: r => some (.arr [], r)
      | r => (readItems (readValue depth) (r.length + 1) r).map fun (js, r) => (.arr js, r)
    | '\x7b' :: r =>
      match skipSpace r with
      | '\x7d' :: r => some (.obj [], r)
      | r => (readFields (readValue depth) [] (r.length + 1) r).map fun (fs, r) => (.obj fs, r)
    | _ => readNumber cs

/-- The value a text stands for. -/
def parse? (s : String) : Option Json := do
  let (j, r) ← readValue (s.length + 1) (skipSpace s.toList)
  if (skipSpace r).isEmpty then some j else none

end GoAtlas.Json
