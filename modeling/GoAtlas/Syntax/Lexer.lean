import GoAtlas.Syntax.Token
import GoAtlas.Text.Letter

namespace GoAtlas.Syntax.Lexer

open GoAtlas.Text

def byte (c : Char) : UInt8 := c.toNat.toUInt8

def isDecimal (b : UInt8) : Bool := byte '0' ≤ b && b ≤ byte '9'

def isOctal (b : UInt8) : Bool := byte '0' ≤ b && b ≤ byte '7'

def isBinary (b : UInt8) : Bool := b == byte '0' || b == byte '1'

def isHex (b : UInt8) : Bool :=
  isDecimal b || (byte 'a' ≤ b && b ≤ byte 'f') || (byte 'A' ≤ b && b ≤ byte 'F')

/-- The length of the word a text starts with; digits may follow its first letter. -/
def wordLength (first : Bool) (bytes : List UInt8) : Nat :=
  match bytes with
  | [] => 0
  | b :: rest =>
    match (Utf8.step b rest).1 with
    | some c =>
      if c == '_' || isLetter c || (!first && c.isDigit) then
        c.utf8Size + wordLength false (Utf8.step b rest).2
      else 0
    | none => 0
termination_by bytes.length
decreasing_by
  have := Utf8.length_step_le b rest
  simp only [List.length_cons]
  omega

/-- Digits after a digit, with single underscores between them. -/
def moreDigits (p : UInt8 → Bool) : List UInt8 → Nat
  | [] => 0
  | [b] => if p b then 1 else 0
  | b :: d :: r =>
    if p b then 1 + moreDigits p (d :: r)
    else if b == byte '_' && p d then 2 + moreDigits p r
    else 0

/-- The length of a run of digits with single underscores between them. -/
def digitsLength (p : UInt8 → Bool) : List UInt8 → Nat
  | [] => 0
  | b :: r => if p b then 1 + moreDigits p r else 0

/-- Digits after a radix mark, where an underscore may come first. -/
def radixDigits (p : UInt8 → Bool) : List UInt8 → Nat
  | [] => 0
  | b :: r =>
    if b == byte '_' then
      match digitsLength p r with
      | 0 => 0
      | n + 1 => n + 2
    else digitsLength p (b :: r)

/-- The length of an exponent with one of the given marks, or zero. -/
def exponentLength (marks : List Char) : List UInt8 → Nat
  | [] => 0
  | b :: r =>
    if marks.any (byte · == b) then
      let sign := match r with
        | s :: _ => if s == byte '+' || s == byte '-' then 1 else 0
        | [] => 0
      match digitsLength isDecimal (r.drop sign) with
      | 0 => 0
      | n + 1 => 1 + sign + (n + 1)
    else 0

def startsWithByte (c : Char) : List UInt8 → Bool
  | [] => false
  | b :: _ => b == byte c

/-- A hexadecimal number after its `0x`: whether it is a float, and its length. -/
def hexLength (r : List UInt8) : Option (TokenClass × Nat) :=
  let whole := radixDigits isHex r
  let afterWhole := r.drop whole
  let fraction :=
    if startsWithByte '.' afterWhole then 1 + digitsLength isHex (afterWhole.drop 1) else 0
  let exponent := exponentLength ['p', 'P'] (afterWhole.drop fraction)
  if 0 < exponent && (0 < whole || 1 < fraction) then some (.float, whole + fraction + exponent)
  else
    let exponent := exponentLength ['p', 'P'] afterWhole
    if 0 < whole && 0 < exponent then some (.float, whole + exponent)
    else if 0 < whole then some (.int, whole)
    else none

/-- A number without a radix mark. -/
def decimalLength (bytes : List UInt8) : Option (TokenClass × Nat) :=
  let whole := digitsLength isDecimal bytes
  let afterWhole := bytes.drop whole
  if startsWithByte '.' afterWhole then
    let fraction := digitsLength isDecimal (afterWhole.drop 1)
    if whole = 0 && fraction = 0 then none
    else
      let size := whole + 1 + fraction
      some (.float, size + exponentLength ['e', 'E'] (bytes.drop size))
  else if whole = 0 then none
  else
    match exponentLength ['e', 'E'] afterWhole with
    | 0 => some (.int, whole)
    | n + 1 => some (.float, whole + (n + 1))

/-- A number with its class; a final `i` makes it imaginary. -/
def numberLength (bytes : List UInt8) : Option (TokenClass × Nat) :=
  let plain : Option (TokenClass × Nat) :=
    match bytes with
    | z :: m :: r =>
      if z == byte '0' && (m == byte 'x' || m == byte 'X') then
        (hexLength r).map fun (c, n) => (c, n + 2)
      else if z == byte '0' && (m == byte 'b' || m == byte 'B') then
        match radixDigits isBinary r with
        | 0 => none
        | n + 1 => some (.int, n + 3)
      else if z == byte '0' && (m == byte 'o' || m == byte 'O') then
        match radixDigits isOctal r with
        | 0 => none
        | n + 1 => some (.int, n + 3)
      else decimalLength bytes
    | _ => decimalLength bytes
  plain.map fun (c, n) => if startsWithByte 'i' (bytes.drop n) then (.imaginary, n + 1) else (c, n)

/-- The length of a well-formed character, or zero. -/
def charLength : List UInt8 → Nat
  | [] => 0
  | b :: r => ((Utf8.step b r).1.map Char.utf8Size).getD 0

/-- The length of what follows the backslash of an escape in a rune. -/
def runeEscapeLength : List UInt8 → Nat
  | [] => 0
  | b :: r =>
    let hex (n : Nat) := if (r.take n).length == n && (r.take n).all isHex then n + 1 else 0
    if b == byte 'x' then hex 2
    else if b == byte 'u' then hex 4
    else if b == byte 'U' then hex 8
    else if isOctal b then
      if (r.take 2).length == 2 && (r.take 2).all isOctal then 3 else 0
    else if ['a', 'b', 'f', 'n', 'r', 't', 'v', '\\', '\'', '"'].any (byte · == b) then 1
    else 0

/-- The length of a rune literal, its quotes included. -/
def runeLength : List UInt8 → Option Nat
  | q :: r =>
    if q != byte '\'' then none
    else
      let inner :=
        match r with
        | [] => 0
        | b :: e =>
          if b == byte '\\' then
            match runeEscapeLength e with
            | 0 => 0
            | n + 1 => n + 2
          else if b == byte '\'' || b == byte '\n' then 0
          else charLength r
      if 0 < inner && startsWithByte '\'' (r.drop inner) then some (inner + 2) else none
  | [] => none

/-- The length of what follows the backslash of an escape in a string. -/
def stringEscapeLength : List UInt8 → Nat
  | [] => 0
  | b :: r =>
    let hex (n : Nat) := if (r.take n).length == n && (r.take n).all isHex then n + 1 else 0
    if b == byte 'x' then
      let n := (r.takeWhile isHex).length
      if 2 ≤ n then n + 1 else 0
    else if b == byte 'u' then hex 4
    else if b == byte 'U' then hex 8
    else if isDecimal b then 1 + ((r.take 2).takeWhile isDecimal).length
    else if b < 0x80 then 1
    else max 1 (charLength (b :: r))

/-- Bytes that stand for themselves in a quoted string. -/
def isQuotedByte (b : UInt8) : Bool :=
  b != byte '"' && b != byte '\\' && b != byte '\n'

/-- The runs and escapes of a quoted string after its opening quote, up to the closing one. -/
def quotedPieces (bytes : List UInt8) : Option (List (Kind × Nat)) :=
  match bytes with
  | [] => none
  | b :: r =>
    if b == byte '"' then some []
    else if b == byte '\\' then
      match stringEscapeLength r with
      | 0 => none
      | n + 1 => (quotedPieces (r.drop (n + 1))).map ((.escapeSequence, n + 2) :: ·)
    else if b == byte '\n' then none
    else
      let run := (r.takeWhile isQuotedByte).length
      (quotedPieces (r.drop run)).map ((.interpretedStringLiteralContent, run + 1) :: ·)
termination_by bytes.length
decreasing_by
  all_goals simp only [List.length_drop, List.length_cons]; omega

/-- The length of a raw string's content after its opening backtick. -/
def rawLength (bytes : List UInt8) : Option Nat :=
  let run := (bytes.takeWhile (· != byte '`')).length
  if startsWithByte '`' (bytes.drop run) then some run else none

/-- The length of a block comment after its opening mark, with its closing one. -/
def blockCommentLength : List UInt8 → Option Nat
  | [] => none
  | [_] => none
  | b :: d :: r =>
    if b == byte '*' && d == byte '/' then some 2
    else (blockCommentLength (d :: r)).map (· + 1)

def symbolAt (bytes : List UInt8) : Option String :=
  symbols.find? fun s => s.toList.map byte == bytes.take s.length

/-- What is left of the text and where it starts. -/
structure Cursor where
  rest : List UInt8
  offset : Nat := 0
  point : Point := ⟨0, 0⟩

namespace Cursor

/-- Moves over `n` bytes. -/
def advance : Nat → Cursor → Cursor
  | 0, c => c
  | n + 1, c =>
    match c.rest with
    | [] => c
    | b :: r =>
      advance n ⟨r, c.offset + 1,
        if b == byte '\n' then ⟨c.point.row + 1, 0⟩ else ⟨c.point.row, c.point.column + 1⟩⟩

def spanTo (a b : Cursor) : Span :=
  ⟨a.offset, b.offset, a.point, b.point⟩

/-- Lays the given pieces one after the other from here. -/
def layOut (c : Cursor) : List (Kind × Nat) → List (Kind × Span)
  | [] => []
  | (k, n) :: ps => (k, c.spanTo (c.advance n)) :: (c.advance n).layOut ps

end Cursor

/-- The tokens and comments of a text, and the levels around its end. -/
structure Lexemes where
  tokens : Array Token := #[]
  comments : Array Span := #[]
  levels : List Level := [{}]

/-- What stands at a cursor. -/
inductive Item where
  | blank (length : Nat)
  | newline
  | comment (length : Nat)
  | token (cls : TokenClass) (length : Nat) (pieces : List (Kind × Nat))

/-- White space within a line: a space, or a control character of the layout. -/
def isBlank (b : UInt8) : Bool :=
  b == byte ' ' || b == byte '\t' || b == byte '\x0b' || b == byte '\x0c' || b == byte '\r'

/-- Recognises the item at the head of a text that is not empty. -/
def item? (bytes : List UInt8) : Option Item :=
  match bytes with
  | [] => none
  | b :: r =>
    if isBlank b then some (.blank 1)
    else if b == byte '\n' then some .newline
    else if b == byte '/' && startsWithByte '/' r then
      some (.comment (bytes.takeWhile (· != byte '\n')).length)
    else if b == byte '/' && startsWithByte '*' r then
      (blockCommentLength (r.drop 1)).map fun n => .comment (n + 2)
    else if b == byte '"' then
      (quotedPieces r).map fun ps =>
        .token .quotedString (ps.foldl (fun n p => n + p.2) 0 + 2) ps
    else if b == byte '`' then
      (rawLength r).map fun n => .token .rawString (n + 2) [(.rawStringLiteralContent, n)]
    else if b == byte '\'' then (runeLength bytes).map fun n => .token .rune n []
    else if isDecimal b || (b == byte '.' && (r.head?.map isDecimal).getD false) then
      (numberLength bytes).map fun (c, n) => .token c n []
    else
      match wordLength true bytes with
      | 0 => (symbolAt bytes).map fun s => .token .symbol s.length []
      | n + 1 => some (.token .name (n + 1) [])

namespace Item

def length : Item → Nat
  | .blank n | .comment n | .token _ n _ => n
  | .newline => 1

end Item

def Lexemes.push (found : Lexemes) (t : Token) : Lexemes :=
  { found with
    tokens := found.tokens.push t
    levels := Level.pass found.tokens.back? t found.levels }

/-- Adds the item read between two cursors; a blank leaves no trace, and a line break is a token
only where it ends a statement. -/
def Lexemes.record (found : Lexemes) (c next : Cursor) : Item → Lexemes
  | .blank _ => found
  | .newline =>
    if (found.tokens.back?.map Token.endsLine).getD false && Level.endsLines found.levels then
      found.push ⟨.newline, "\n", c.spanTo next, []⟩
    else found
  | .comment _ => { found with comments := found.comments.push (c.spanTo next) }
  | .token cls n pieces =>
    let text := match cls with
      | .name | .symbol => Utf8.decodeBytes (c.rest.take n)
      | _ => ""
    let cls := if cls = .name && keywords.contains text then .keyword else cls
    found.push ⟨cls, text, c.spanTo next, (c.advance 1).layOut pieces⟩

/-- Reads items until the text ends, `size` being the length of the whole text. -/
def scan (size : Nat) (c : Cursor) (found : Lexemes) : Option (Lexemes × Cursor) :=
  if c.rest.isEmpty then some (found, c)
  else
    match item? c.rest with
    | none => none
    | some i =>
      if c.offset < (c.advance i.length).offset ∧ (c.advance i.length).offset ≤ size then
        scan size (c.advance i.length) (found.record c (c.advance i.length) i)
      else none
termination_by size - c.offset

/-- The first cursor of a text, past a byte order mark. -/
def startCursor (bytes : List UInt8) : Cursor :=
  if bytes.take 3 == [0xEF, 0xBB, 0xBF] then Cursor.advance 3 ⟨bytes, 0, ⟨0, 0⟩⟩
  else ⟨bytes, 0, ⟨0, 0⟩⟩

def lexemes? (source : ByteArray) : Option (Lexemes × Cursor) :=
  scan source.size (startCursor source.toList) {}

end GoAtlas.Syntax.Lexer
