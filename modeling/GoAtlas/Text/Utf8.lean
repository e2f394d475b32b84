namespace GoAtlas.Text.Utf8

/-- The character that stands for an ill-formed piece. -/
def replacement : Char := Char.ofNat 0xFFFD

/-- Bytes that continue a character. -/
def isTail (b : UInt8) : Bool :=
  0x80 ≤ b && b ≤ 0xBF

/-- The bytes allowed after the first byte of a character of more than two bytes. -/
def secondBounds (b : UInt8) : UInt8 × UInt8 :=
  if b = 0xE0 then (0xA0, 0xBF)
  else if b = 0xED then (0x80, 0x9F)
  else if b = 0xF0 then (0x90, 0xBF)
  else if b = 0xF4 then (0x80, 0x8F)
  else (0x80, 0xBF)

def isSecond (b s : UInt8) : Bool :=
  (secondBounds b).1 ≤ s && s ≤ (secondBounds b).2

/-- The low six bits of a continuation byte appended to `n`. -/
def push (n : Nat) (b : UInt8) : Nat :=
  n * 64 + b.toNat % 64

/-- Reads the character starting with `b`, or `none` for an ill-formed piece, and what follows. -/
def step (b : UInt8) (rest : List UInt8) : Option Char × List UInt8 :=
  if b < 0x80 then (some (Char.ofNat b.toNat), rest)
  else if 0xC2 ≤ b && b ≤ 0xDF then
    match rest with
    | s :: r => if isTail s then (some (Char.ofNat (push (b.toNat % 32) s)), r) else (none, rest)
    | [] => (none, [])
  else if 0xE0 ≤ b && b ≤ 0xEF then
    match rest with
    | s :: t :: r =>
      if !isSecond b s then (none, rest)
      else if isTail t then (some (Char.ofNat (push (push (b.toNat % 16) s) t)), r)
      else (none, t :: r)
    | [s] => (none, if isSecond b s then [] else rest)
    | [] => (none, [])
  else if 0xF0 ≤ b && b ≤ 0xF4 then
    match rest with
    | s :: t :: u :: r =>
      if !isSecond b s then (none, rest)
      else if !isTail t then (none, t :: u :: r)
      else if isTail u then (some (Char.ofNat (push (push (push (b.toNat % 8) s) t) u)), r)
      else (none, u :: r)
    | [s, t] =>
      (none, if !isSecond b s then rest else if isTail t then [] else [t])
    | [s] => (none, if isSecond b s then [] else rest)
    | [] => (none, [])
  else (none, rest)

theorem length_step_le (b : UInt8) (rest : List UInt8) :
    (step b rest).2.length ≤ rest.length := by
  unfold step
  repeat' split
  all_goals simp only [List.length_cons, List.length_nil, Nat.le_refl, Nat.zero_le]
  all_goals omega

/-- The pieces of a byte sequence, `none` for each ill-formed one. -/
def pieces : List UInt8 → List (Option Char)
  | [] => []
  | b :: rest => (step b rest).1 :: pieces (step b rest).2
termination_by bytes => bytes.length
decreasing_by
  have := length_step_le b rest
  simp only [List.length_cons]
  omega

def decodeBytes (bytes : List UInt8) : String :=
  String.ofList ((pieces bytes).map (·.getD replacement))

/-- Lenient decoding. -/
def decode (bytes : ByteArray) : String :=
  decodeBytes bytes.toList

/-- Strict decoding. -/
def decode? (bytes : ByteArray) : Option String :=
  ((pieces bytes.toList).mapM id).map String.ofList

end GoAtlas.Text.Utf8
