namespace GoAtlas

/-- A JSON value; a number is `mantissa` divided by ten to the `scale`. -/
inductive Json where
  | null
  | bool (b : Bool)
  | num (mantissa : Int) (scale : Nat)
  | str (s : String)
  | arr (items : List Json)
  | obj (fields : List (String × Json))
  deriving Repr, Inhabited

namespace Json

def int (n : Int) : Json := .num n 0

/-- A text, or null when there is none. -/
def ofOption (s : Option String) : Json :=
  (s.map Json.str).getD .null

def strs (l : List String) : Json :=
  .arr (l.map .str)

def field? (j : Json) (key : String) : Option Json :=
  match j with
  | .obj fs => fs.lookup key
  | _ => none

def hexDigit (n : Nat) : Char :=
  if n < 10 then Char.ofNat (0x30 + n) else Char.ofNat (0x57 + n)

/-- A character inside quotes; only quotes, backslashes and control characters are escaped. -/
def escapeChar (c : Char) : List Char :=
  if c = '"' then ['\\', '"']
  else if c = '\\' then ['\\', '\\']
  else if c = '\n' then ['\\', 'n']
  else if c = '\r' then ['\\', 'r']
  else if c = '\t' then ['\\', 't']
  else if c.toNat = 0x08 then ['\\', 'b']
  else if c.toNat = 0x0C then ['\\', 'f']
  else if c.toNat < 0x20 then
    ['\\', 'u', '0', '0', hexDigit (c.toNat / 16), hexDigit (c.toNat % 16)]
  else [c]

def quote (s : String) : String :=
  "\"" ++ String.ofList (s.toList.flatMap escapeChar) ++ "\""

/-- A number in decimal, with a point where its scale asks for one. -/
def renderNum (mantissa : Int) (scale : Nat) : String :=
  if scale = 0 then toString mantissa
  else
    let digits := toString mantissa.natAbs
    let padded := String.ofList (List.replicate (scale + 1 - digits.length) '0') ++ digits
    let whole := padded.toList.take (padded.length - scale)
    let fraction := padded.toList.drop (padded.length - scale)
    (if mantissa < 0 then "-" else "") ++ String.ofList whole ++ "." ++ String.ofList fraction

/-- Fields in increasing order of their keys. -/
def sortFields {α : Type} (fs : List (String × α)) : List (String × α) :=
  fs.mergeSort fun a b => decide (a.1 ≤ b.1)

/-- Texts of the fields of an object, each with its key in front, in increasing order of the keys. -/
def joinFields (sep : String) (colon : String) (fs : List (String × String)) : String :=
  sep.intercalate ((sortFields fs).map fun (k, v) => quote k ++ colon ++ v)

mutual
/-- The text of a value without blanks. -/
def compact : Json → String
  | .null => "null"
  | .bool b => if b then "true" else "false"
  | .num m s => renderNum m s
  | .str s => quote s
  | .arr items => "[" ++ ",".intercalate (compactAll items) ++ "]"
  | .obj fs => "\x7b" ++ joinFields "," ":" (compactFields fs) ++ "\x7d"

def compactAll : List Json → List String
  | [] => []
  | j :: js => j.compact :: compactAll js

def compactFields : List (String × Json) → List (String × String)
  | [] => []
  | (k, v) :: fs => (k, v.compact) :: compactFields fs
end

/-- A line break and the blanks of an indentation of `depth` steps. -/
def newline (depth : Nat) : String :=
  "\n" ++ String.ofList (List.replicate (2 * depth) ' ')

mutual
/-- The text of a value over several lines, each level indented by two blanks. -/
def indented (depth : Nat) : Json → String
  | .null => "null"
  | .bool b => if b then "true" else "false"
  | .num m s => renderNum m s
  | .str s => quote s
  | .arr items =>
    if items.isEmpty then "[]"
    else
      "[" ++ newline (depth + 1)
        ++ ("," ++ newline (depth + 1)).intercalate (indentedAll (depth + 1) items)
        ++ newline depth ++ "]"
  | .obj fs =>
    if fs.isEmpty then "\x7b\x7d"
    else
      "\x7b" ++ newline (depth + 1)
        ++ joinFields ("," ++ newline (depth + 1)) ": " (indentedFields (depth + 1) fs)
        ++ newline depth ++ "\x7d"

def indentedAll (depth : Nat) : List Json → List String
  | [] => []
  | j :: js => indented depth j :: indentedAll depth js

def indentedFields (depth : Nat) : List (String × Json) → List (String × String)
  | [] => []
  | (k, v) :: fs => (k, indented depth v) :: indentedFields depth fs
end

end Json

end GoAtlas
