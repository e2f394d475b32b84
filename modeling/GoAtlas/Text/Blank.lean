import GoAtlas.Text.CharSet

namespace GoAtlas.Text

def blanks : CharSet :=
  [⟨0x9, 0xD, 1⟩, ⟨0x1C, 0x20, 1⟩, ⟨0x85, 0x85, 1⟩, ⟨0xA0, 0xA0, 1⟩, ⟨0x1680, 0x1680, 1⟩,
    ⟨0x2000, 0x200A, 1⟩, ⟨0x2028, 0x2029, 1⟩, ⟨0x202F, 0x202F, 1⟩, ⟨0x205F, 0x205F, 1⟩,
    ⟨0x3000, 0x3000, 1⟩]

def isBlank (c : Char) : Bool :=
  blanks.contains c

/-- Drops characters satisfying `p` from both ends. -/
def trimBoth (p : Char → Bool) (cs : List Char) : List Char :=
  ((cs.dropWhile p).reverse.dropWhile p).reverse

/-- `s` without the characters satisfying `p` at either end. -/
def stripWith (p : Char → Bool) (s : String) : String :=
  String.ofList (trimBoth p s.toList)

def stripRightWith (p : Char → Bool) (s : String) : String :=
  String.ofList (s.toList.reverse.dropWhile p).reverse

def strip (s : String) : String :=
  stripWith isBlank s

/-- Puts one space in place of each run of blanks; `within` says that a run has begun already. -/
def collapse (within : Bool) : List Char → List Char
  | [] => []
  | c :: r =>
    if isBlank c then
      if within then collapse true r else ' ' :: collapse true r
    else c :: collapse false r

end GoAtlas.Text
