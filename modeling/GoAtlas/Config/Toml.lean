import GoAtlas.Dict
import GoAtlas.Loose.Value

namespace GoAtlas.Toml

open Loose

/-- A reader takes a value from the start of a text, if it can. -/
abbrev Reader (α : Type) := List Char → Option (α × List Char)

def isSpace (c : Char) : Bool := c = ' ' || c = '\t'

def isSpaceOrLine (c : Char) : Bool := isSpace c || c = '\n'

def isBareKey (c : Char) : Bool := c.isAlphanum || c = '-' || c = '_'

/-- Control characters, which stand in no text; a tab is none. -/
def isControl (c : Char) : Bool := (c.toNat < 0x20 && c != '\t') || c.toNat = 0x7F

def skipSpace (cs : List Char) : List Char := cs.dropWhile isSpace

/-- Passes over a comment, if there is one, up to the end of its line. -/
def skipComment? (cs : List Char) : Option (List Char) :=
  match cs with
  | '#' :: r =>
    if (r.takeWhile (· != '\n')).any isControl then none else some (r.dropWhile (· != '\n'))
  | r => some r

/-- Passes over blanks, line ends and comments; `n` bounds the number of comments. -/
def skipFiller? : Nat → List Char → Option (List Char)
  | 0, cs => some cs
  | n + 1, cs =>
    match cs.dropWhile isSpaceOrLine with
    | '#' :: r => (skipComment? ('#' :: r)).bind (skipFiller? n)
    | r => some r

def hexValue? (c : Char) : Option Nat :=
  if c.isDigit then some (c.toNat - 0x30)
  else if 'a' ≤ c && c ≤ 'f' then some (c.toNat - 0x57)
  else if 'A' ≤ c && c ≤ 'F' then some (c.toNat - 0x37)
  else none

/-- A number of `digits` hexadecimal digits that names a character. -/
def readCode (digits : Nat) : Reader Char := fun cs =>
  let (code, rest) := cs.splitAt digits
  if code.length = digits then do
    let n ← code.foldlM (fun n c => (hexValue? c).map (16 * n + ·)) 0
    if n < 0xD800 || (0xE000 ≤ n && n < 0x110000) then some (Char.ofNat n, rest) else none
  else none

/-- The rest of a text after a backslash that ends a line. -/
def afterLineEnd? (cs : List Char) : Option (List Char) :=
  match skipSpace cs with
  | [] => some []
  | '\n' :: r => some (r.dropWhile isSpaceOrLine)
  | _ => none

/-- What a backslash and the characters after it stand for. -/
def readEscape (multiline : Bool) : Reader (List Char) := fun cs =>
  match cs with
  | 'b' :: r => some ([Char.ofNat 0x08], r)
  | 't' :: r => some (['\t'], r)
  | 'n' :: r => some (['\n'], r)
  | 'f' :: r => some ([Char.ofNat 0x0C], r)
  | 'r' :: r => some (['\r'], r)
  | '"' :: r => some (['"'], r)
  | '\\' :: r => some (['\\'], r)
  | 'u' :: r => (readCode 4 r).map fun (c, r) => ([c], r)
  | 'U' :: r => (readCode 8 r).map fun (c, r) => ([c], r)
  | c :: r =>
    if multiline && isSpaceOrLine c then (afterLineEnd? (c :: r)).map fun r => ([], r) else none
  | [] => none

/-- The rest of a text in double quotes; `n` bounds the number of steps. -/
def readBasic (multiline : Bool) : Nat → Reader (List Char)
  | 0, _ => none
  | n + 1, cs =>
    match cs with
    | [] => none
    | '"' :: r =>
      if !multiline then some ([], r)
      else
        match r with
        | '"' :: '"' :: r => some ([], r)
        | r => (readBasic multiline n r).map fun (t, r) => ('"' :: t, r)
    | '\\' :: r => do
      let (c, r) ← readEscape multiline r
      let (t, r) ← readBasic multiline n r
      pure (c ++ t, r)
    | c :: r =>
      if isControl c && !(multiline && c = '\n') then none
      else (readBasic multiline n r).map fun (t, r) => (c :: t, r)

/-- The rest of a text in single quotes, in which nothing is escaped. -/
def readLiteral (multiline : Bool) : Reader (List Char)
  | [] => none
  | '\'' :: r =>
    if !multiline then some ([], r)
    else
      match r with
      | '\'' :: '\'' :: r => some ([], r)
      | r => (readLiteral multiline r).map fun (t, r) => ('\'' :: t, r)
  | c :: r =>
    if isControl c && !(multiline && c = '\n') then none
    else (readLiteral multiline r).map fun (t, r) => (c :: t, r)

/-- Up to two more quotes that belong to a text of several lines. -/
def moreQuotes (quote : Char) (text : List Char) (cs : List Char) : List Char × List Char :=
  match cs with
  | a :: b :: r =>
    if a = quote && b = quote then (text ++ [quote, quote], r)
    else if a = quote then (text ++ [quote], b :: r)
    else (text, cs)
  | [a] => if a = quote then (text ++ [quote], []) else (text, cs)
  | [] => (text, cs)

def dropLineEnd (cs : List Char) : List Char :=
  match cs with
  | '\n' :: r => r
  | r => r

/-- A text in quotes; keys have it on one line. -/
def readText (severalLines : Bool) : Reader String := fun cs =>
  match cs with
  | '"' :: r =>
    match severalLines, r with
    | true, '"' :: '"' :: r =>
      (readBasic true (r.length + 1) (dropLineEnd r)).map fun (t, r) =>
        let (t, r) := moreQuotes '"' t r
        (String.ofList t, r)
    | _, r => (readBasic false (r.length + 1) r).map fun (t, r) => (String.ofList t, r)
  | '\'' :: r =>
    match severalLines, r with
    | true, '\'' :: '\'' :: r =>
      (readLiteral true (dropLineEnd r)).map fun (t, r) =>
        let (t, r) := moreQuotes '\'' t r
        (String.ofList t, r)
    | _, r => (readLiteral false r).map fun (t, r) => (String.ofList t, r)
  | _ => none

def readKeyPart : Reader String := fun cs =>
  match cs with
  | [] => none
  | c :: r =>
    if isBareKey c then
      some (String.ofList ((c :: r).takeWhile isBareKey), (c :: r).dropWhile isBareKey)
    else readText false (c :: r)

/-- The parts of a key after its first; `n` bounds their number. -/
def readKeyRest : Nat → Reader (List String)
  | 0, _ => none
  | n + 1, cs =>
    match skipSpace cs with
    | '.' :: r => do
      let (part, r) ← readKeyPart (skipSpace r)
      let (parts, r) ← readKeyRest n r
      pure (part :: parts, r)
    | r => some ([], r)

/-- A key with its parts, and no blanks left after it. -/
def readKey : Reader (List String) := fun cs => do
  let (part, r) ← readKeyPart cs
  let (parts, r) ← readKeyRest (r.length + 1) r
  pure (part :: parts, r)

/-- Digits with single underscores between them. -/
def readDigits (isDigit : Char → Bool) : List Char → List Char × List Char
  | '_' :: c :: r =>
    if isDigit c then
      let (ds, r) := readDigits isDigit (c :: r)
      (ds, r)
    else ([], '_' :: c :: r)
  | c :: r =>
    if isDigit c then
      let (ds, r) := readDigits isDigit r
      (c :: ds, r)
    else ([], c :: r)
  | [] => ([], [])

/-- At least one digit; no underscore comes first. -/
def readNumeral (isDigit : Char → Bool) : Reader (List Char) := fun cs =>
  match cs with
  | c :: r => if isDigit c then some (readDigits isDigit (c :: r)) else none
  | [] => none

def numeralValue (base : Nat) (digits : List Char) : Nat :=
  digits.foldl (fun n c => base * n + (hexValue? c).getD 0) 0

/-- A whole number with a mark for its base. -/
def readMarked : Reader Value := fun cs =>
  match cs with
  | '0' :: 'x' :: r =>
    (readNumeral (fun c => (hexValue? c).isSome) r).map fun (ds, r) =>
      (.int (numeralValue 16 ds), r)
  | '0' :: 'b' :: r =>
    (readNumeral (fun c => c = '0' || c = '1') r).map fun (ds, r) => (.int (numeralValue 2 ds), r)
  | '0' :: 'o' :: r =>
    (readNumeral (fun c => '0' ≤ c && c ≤ '7') r).map fun (ds, r) => (.int (numeralValue 8 ds), r)
  | _ => none

def readSign (cs : List Char) : Bool × List Char :=
  match cs with
  | '-' :: r => (true, r)
  | '+' :: r => (false, r)
  | r => (false, r)

/-- The whole part of a decimal number, which has no leading zero. -/
def readWhole : Reader (List Char) := fun cs =>
  match cs with
  | '0' :: r => some (['0'], r)
  | r => readNumeral Char.isDigit r

def readFraction (cs : List Char) : List Char × List Char :=
  match cs with
  | '.' :: r => (readNumeral Char.isDigit r).getD ([], cs)
  | _ => ([], cs)

def readExponent (cs : List Char) : Option Int × List Char :=
  match cs with
  | c :: r =>
    if c = 'e' || c = 'E' then
      let (negative, r) := readSign r
      match readNumeral Char.isDigit r with
      | some (ds, r) =>
        let n : Int := numeralValue 10 ds
        (some (if negative then -n else n), r)
      | none => (none, cs)
    else (none, cs)
  | [] => (none, cs)

/-- A number in decimal, with a point or an exponent if it is no whole number. -/
def readDecimal : Reader Value := fun cs => do
  let (negative, r) := readSign cs
  let (whole, r) ← readWhole r
  let (fraction, r) := readFraction r
  let (exponent, r) := readExponent r
  if fraction.isEmpty && exponent.isNone then
    let n : Int := numeralValue 10 whole
    pure (.int (if negative then -n else n), r)
  else
    pure (.real (.ofDecimal negative (numeralValue 10 (whole ++ fraction))
      (exponent.getD 0 - fraction.length)), r)

def readSpecial : Reader Value := fun cs =>
  match (readSign cs).2 with
  | 'i' :: 'n' :: 'f' :: r => some (.real .infinite, r)
  | 'n' :: 'a' :: 'n' :: r => some (.real .undefined, r)
  | _ => none

/-- Two digits that name a number in a range. -/
def readPair (low high : Nat) : Reader Nat := fun cs =>
  match cs with
  | a :: b :: r =>
    let n := 10 * (a.toNat - 0x30) + (b.toNat - 0x30)
    if a.isDigit && b.isDigit && low ≤ n && n ≤ high then some (n, r) else none
  | _ => none

def readChar (p : Char → Bool) : Reader Unit := fun cs =>
  match cs with
  | c :: r => if p c then some ((), r) else none
  | [] => none

/-- A time of day, with any number of further digits of a second. -/
def readTime : Reader Unit := fun cs => do
  let (_, r) ← readPair 0 23 cs
  let (_, r) ← readChar (· = ':') r
  let (_, r) ← readPair 0 59 r
  let (_, r) ← readChar (· = ':') r
  let (_, r) ← readPair 0 59 r
  match r with
  | '.' :: d :: more => if d.isDigit then some ((), more.dropWhile Char.isDigit) else some ((), r)
  | _ => some ((), r)

/-- The offset of a time from that of the meridian, if it is given. -/
def readOffset (cs : List Char) : List Char :=
  let signed : Reader Unit := fun cs => do
    let (_, r) ← readChar (fun c => c = '+' || c = '-') cs
    let (_, r) ← readPair 0 23 r
    let (_, r) ← readChar (· = ':') r
    let (_, r) ← readPair 0 59 r
    some ((), r)
  match cs with
  | 'Z' :: r => r
  | 'z' :: r => r
  | _ =>
    match signed cs with
    | some (_, r) => r
    | none => cs

def isLeap (year : Nat) : Bool :=
  year % 4 = 0 && (year % 100 != 0 || year % 400 = 0)

def monthLength (year month : Nat) : Nat :=
  if month = 2 then if isLeap year then 29 else 28
  else if [4, 6, 9, 11].contains month then 30
  else 31

/-- Year, month and day as they are written. -/
def readDate : Reader (Nat × Nat × Nat) := fun cs => do
  let (century, r) ← readPair 0 99 cs
  let (years, r) ← readPair 0 99 r
  let (_, r) ← readChar (· = '-') r
  let (month, r) ← readPair 1 12 r
  let (_, r) ← readChar (· = '-') r
  let (day, r) ← readPair 1 31 r
  some ((100 * century + years, month, day), r)

/-- A date, perhaps with a time: nothing if there is none, and a failure if there is no such day. -/
def readMoment (cs : List Char) : Option (Option (Value × List Char)) :=
  match readDate cs with
  | some ((year, month, day), r) =>
    if year = 0 || monthLength year month < day then some none
    else
      match r with
      | c :: more =>
        if c = 'T' || c = 't' || c = ' ' then
          match readTime more with
          | some (_, r) => some (some (.moment, readOffset r))
          | none => some (some (.moment, r))
        else some (some (.moment, r))
      | [] => some (some (.moment, r))
  | none => (readTime cs).map fun (_, r) => some (.moment, r)

/-- Changes the table at the end of a key, tables on the way being made as needed. A list stands for
its last item, if lists may be entered. -/
def changeTable (enterLists : Bool) (f : Dict String Value → Option (Dict String Value)) :
    List String → Dict String Value → Option (Dict String Value)
  | [], t => f t
  | k :: ks, t => do
    let inner ←
      match t.lookup k with
      | none => (changeTable enterLists f ks []).map Value.table
      | some (.table u) => (changeTable enterLists f ks u).map Value.table
      | some (.list items) =>
        match enterLists, items.getLast? with
        | true, some (.table u) =>
          (changeTable enterLists f ks u).map fun u => Value.list (items.dropLast ++ [.table u])
        | _, _ => none
      | some _ => none
    some (t.put k inner)

/-- Sets a key that must be new. -/
def setNew (k : String) (v : Value) (t : Dict String Value) : Option (Dict String Value) :=
  if (t.lookup k).isSome then none else some (t ++ [(k, v)])

/-- Adds an empty table to the list under a key. -/
def addItem (k : String) (t : Dict String Value) : Option (Dict String Value) :=
  match t.lookup k with
  | none => some (t ++ [(k, .list [.table []])])
  | some (.list items) => some (t.put k (.list (items ++ [.table []])))
  | some _ => none

/-- Whether one key starts with another. -/
def startsWith (key start : List String) : Bool :=
  start.isPrefixOf key

def isCompound : Value → Bool
  | .table _ => true
  | .list _ => true
  | _ => false

/-- Reads the values of a list after its bracket by `value`; `n` bounds their number. -/
def readItems (value : Reader Value) : Nat → Reader (List Value)
  | 0, _ => none
  | n + 1, cs => do
    match ← skipFiller? cs.length cs with
    | ']' :: r => some ([], r)
    | r =>
      let (v, r) ← value r
      match ← skipFiller? r.length r with
      | ']' :: r => some ([v], r)
      | ',' :: r =>
        let (vs, r) ← readItems value n r
        some (v :: vs, r)
      | _ => none

/-- A key, an equals sign and a value. -/
def readPairOf (value : Reader Value) : Reader (List String × Value) := fun cs => do
  let (key, r) ← readKey cs
  let (_, r) ← readChar (· = '=') r
  let (v, r) ← value (skipSpace r)
  some ((key, v), r)

/-- Reads the entries of an inline table by `value`; `frozen` are the keys that can no longer be
entered. -/
def readEntries (value : Reader Value) (frozen : List (List String)) (t : Dict String Value) :
    Nat → Reader (Dict String Value)
  | 0, _ => none
  | n + 1, cs => do
    let ((key, v), r) ← readPairOf value cs
    if frozen.any (startsWith key) then none
    let t ← changeTable false (setNew (key.getLast?.getD "") v) key.dropLast t
    match skipSpace r with
    | '\x7d' :: r => some (t, r)
    | ',' :: r =>
      readEntries value (if isCompound v then key :: frozen else frozen) t n (skipSpace r)
    | _ => none

/-- A value whose lists and tables nest at most `depth` deep. -/
def readValue : Nat → Reader Value
  | 0, _ => none
  | depth + 1, cs =>
    match cs with
    | '"' :: _ => (readText true cs).map fun (s, r) => (.text s, r)
    | '\'' :: _ => (readText true cs).map fun (s, r) => (.text s, r)
    | 't' :: 'r' :: 'u' :: 'e' :: r => some (.bool true, r)
    | 'f' :: 'a' :: 'l' :: 's' :: 'e' :: r => some (.bool false, r)
    | '[' :: r =>
      (readItems (readValue depth) (r.length + 1) r).map fun (vs, r) => (.list vs, r)
    | '\x7b' :: r =>
      match skipSpace r with
      | '\x7d' :: r => some (.table [], r)
      | r =>
        (readEntries (readValue depth) [] [] (r.length + 1) r).map fun (t, r) => (.table t, r)
    | _ =>
      match readMoment cs with
      | some found => found
      | none => (readMarked cs).or ((readDecimal cs).or (readSpecial cs))

/-- A document being read: its values, the table that is open, the keys that cannot be declared as
tables again, and those whose values are closed. `pending` are keys that become declared when the
next table is opened. -/
structure Draft where
  values : Dict String Value := []
  header : List String := []
  declared : List (List String) := []
  pending : List (List String) := []
  closed : List (List String) := []

namespace Draft

def isClosed (d : Draft) (key : List String) : Bool :=
  d.closed.any (startsWith key)

/-- Takes up the pending keys, as a new table is opened. -/
def settle (d : Draft) : Draft :=
  { d with declared := d.pending ++ d.declared, pending := [] }

def openTable (key : List String) (d : Draft) : Option Draft := do
  if d.declared.contains key || d.isClosed key then none
  let values ← changeTable true some key d.values
  some { d with values, header := key, declared := key :: d.declared }

/-- Opens a further table in a list; what was declared below the former one is free again. -/
def openItem (key : List String) (d : Draft) : Option Draft := do
  if d.isClosed key then none
  let values ← changeTable true (addItem (key.getLast?.getD "")) key.dropLast d.values
  some { d with
    values, header := key
    declared := key :: d.declared.filter (!startsWith · key)
    closed := d.closed.filter (!startsWith · key) }

/-- The proper starts of a key. -/
def properStarts (key : List String) : List (List String) :=
  (List.range key.length).drop 1 |>.map key.take

def set (key : List String) (v : Value) (d : Draft) : Option Draft := do
  let inner := (properStarts key).map (d.header ++ ·)
  if inner.any d.declared.contains then none
  let parent := d.header ++ key.dropLast
  if d.isClosed parent then none
  let values ← changeTable true (setNew (key.getLast?.getD "") v) parent d.values
  some { d with
    values
    pending := inner ++ d.pending
    closed := if isCompound v then (d.header ++ key) :: d.closed else d.closed }

/-- One statement of a document, and the rest of its line. -/
def statement (d : Draft) (cs : List Char) : Option (Draft × List Char) :=
  match cs with
  | '[' :: '[' :: r => do
    let (key, r) ← readKey (skipSpace r)
    let d ← d.settle.openItem key
    match r with
    | ']' :: ']' :: r => some (d, skipSpace r)
    | _ => none
  | '[' :: r => do
    let (key, r) ← readKey (skipSpace r)
    let d ← d.settle.openTable key
    match r with
    | ']' :: r => some (d, skipSpace r)
    | _ => none
  | '#' :: r => some (d, '#' :: r)
  | r => do
    let ((key, v), r) ← readPairOf (readValue (r.length + 1)) r
    let d ← d.set key v
    some (d, skipSpace r)

/-- Reads statements to the end; `n` bounds their number. -/
def statements : Nat → Draft → List Char → Option Draft
  | 0, _, _ => none
  | n + 1, d, cs =>
    match skipSpace cs with
    | [] => some d
    | '\n' :: r => statements n d r
    | r => do
      let (d, r) ← d.statement r
      match ← skipComment? r with
      | [] => some d
      | '\n' :: r => statements n d r
      | _ => none

end Draft

/-- A text whose lines end in single line feeds. -/
def joinLineEnds : List Char → List Char
  | '\r' :: '\n' :: r => '\n' :: joinLineEnds r
  | c :: r => c :: joinLineEnds r
  | [] => []

/-- The table a document stands for. -/
def parse? (text : String) : Option (List (String × Value)) :=
  let cs := joinLineEnds text.toList
  (Draft.statements (cs.length + 1) {} cs).map (·.values)

end GoAtlas.Toml
