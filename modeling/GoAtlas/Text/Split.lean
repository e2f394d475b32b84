namespace GoAtlas.Text

/-- The pieces of a list between the elements satisfying `p`; there is always at least one. -/
def splitWhere {α : Type} (p : α → Bool) : List α → List (List α)
  | [] => [[]]
  | a :: r =>
    if p a then [] :: splitWhere p r
    else
      match splitWhere p r with
      | piece :: more => (a :: piece) :: more
      | [] => [[a]]

/-- The pieces of a text between occurrences of a character. -/
def splitAt (c : Char) (s : String) : List String :=
  (splitWhere (· == c) s.toList).map String.ofList

/-- What stands before and after the first occurrence of `sep`. -/
def cutAt? (sep : List Char) : List Char → Option (List Char × List Char)
  | [] => if sep.isEmpty then some ([], []) else none
  | c :: r =>
    if sep.isPrefixOf (c :: r) then some ([], (c :: r).drop sep.length)
    else (cutAt? sep r).map fun (a, b) => (c :: a, b)

/-- What stands before and after the first occurrence of `sep` in a text. -/
def cut? (sep s : String) : Option (String × String) :=
  (cutAt? sep.toList s.toList).map fun (a, b) => (String.ofList a, String.ofList b)

/-- What stands before and after the last occurrence of `sep` in a text. -/
def cutLast? (sep s : String) : Option (String × String) :=
  (cutAt? sep.toList.reverse s.toList.reverse).map fun (a, b) =>
    (String.ofList b.reverse, String.ofList a.reverse)

/-- Whether `part` occurs in a text. -/
def occursIn (part s : String) : Bool :=
  (cut? part s).isSome

def beginsWith (s start : String) : Bool :=
  start.toList.isPrefixOf s.toList

def finishesWith (s ending : String) : Bool :=
  ending.toList.isSuffixOf s.toList

/-- `s` without its first `n` characters. -/
def dropFirst (n : Nat) (s : String) : String :=
  String.ofList (s.toList.drop n)

/-- Characters that end a line, other than the pair of carriage return and line feed. -/
def isLineEnd (c : Char) : Bool :=
  [0x0A, 0x0B, 0x0C, 0x0D, 0x1C, 0x1D, 0x1E, 0x85, 0x2028, 0x2029].contains c.toNat

/-- The lines of a text, `line` being the current one in reverse; a last line end opens no line. -/
def linesFrom (line : List Char) : List Char → List (List Char)
  | [] => if line.isEmpty then [] else [line.reverse]
  | [c] => if isLineEnd c then [line.reverse] else [(c :: line).reverse]
  | c :: d :: r =>
    if c.toNat = 0x0D ∧ d.toNat = 0x0A then line.reverse :: linesFrom [] r
    else if isLineEnd c then line.reverse :: linesFrom [] (d :: r)
    else linesFrom (c :: line) (d :: r)

def lines (s : String) : List String :=
  (linesFrom [] s.toList).map String.ofList

end GoAtlas.Text
