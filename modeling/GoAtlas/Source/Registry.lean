import GoAtlas.Text.Utf8

namespace GoAtlas.Source

/-- A place in a file, with line and column counted from one. -/
structure Place where
  file : String
  offset : Int
  line : Int
  column : Int
  deriving DecidableEq, Repr

/-- The positions `base` to `base + size` given to a file. -/
structure Slot where
  file : String
  base : Nat
  size : Nat
  lineStarts : List Nat
  deriving DecidableEq, Repr, Inhabited

/-- Why a slot gives no answer. -/
inductive RangeError where
  | offset (offset : Int) (file : String) (size : Nat)
  | position (pos : Int) (file : String)
  deriving DecidableEq, Repr

namespace RangeError

def message : RangeError → String
  | .offset o file size =>
    "offset " ++ toString o ++ " out of range for " ++ file ++ " (size " ++ toString size ++ ")"
  | .position p file => "position " ++ toString p ++ " not in " ++ file

end RangeError

/-- The offsets after line feeds, the first byte being at `offset`. -/
def startsFrom (offset : Nat) : List UInt8 → List Nat
  | [] => []
  | b :: r => if b = 0x0A then (offset + 1) :: startsFrom (offset + 1) r else startsFrom (offset + 1) r

/-- The offsets at which the lines of a content start. -/
def lineStarts (content : ByteArray) : List Nat :=
  0 :: startsFrom 0 content.toList

namespace Slot

def pos (s : Slot) (offset : Int) : Except RangeError Int :=
  if offset < 0 ∨ (s.size : Int) < offset then .error (.offset offset s.file s.size)
  else .ok (s.base + offset)

def offset (s : Slot) (pos : Int) : Except RangeError Int :=
  if pos < s.base ∨ (s.base + s.size : Int) < pos then .error (.position pos s.file)
  else .ok (pos - s.base)

/-- The line starts at or before an offset. -/
def startsUpTo (s : Slot) (offset : Int) : List Nat :=
  s.lineStarts.takeWhile fun n => (n : Int) ≤ offset

/-- The place of an offset, which need not be in range. An offset before the first line start is put
on line zero and counted from the last line start. -/
def place (s : Slot) (offset : Int) : Place :=
  let before := s.startsUpTo offset
  let start := (if before.isEmpty then s.lineStarts else before).getLast?.getD 0
  ⟨s.file, offset, before.length, offset - start + 1⟩

end Slot

/-- Slots in the order in which their files were added. -/
structure Registry where
  nextBase : Nat := 1
  slots : List Slot := []
  deriving Repr, Inhabited

namespace Registry

/-- The slot a file would get. -/
def slotFor (r : Registry) (file : String) (content : ByteArray) : Slot :=
  ⟨file, r.nextBase, content.size, lineStarts content⟩

def add (r : Registry) (file : String) (content : ByteArray) : Slot × Registry :=
  let slot := r.slotFor file content
  (slot, ⟨r.nextBase + content.size + 1, r.slots ++ [slot]⟩)

/-- The slot a position lies in. -/
def slot? (r : Registry) (pos : Int) : Option Slot :=
  match (r.slots.takeWhile fun s => (s.base : Int) ≤ pos).getLast? with
  | none => none
  | some s => if (s.base + s.size : Int) < pos then none else some s

/-- The place of a position. -/
def place? (r : Registry) (pos : Int) : Option Place :=
  (r.slot? pos).map fun s => s.place (pos - s.base)

end Registry

end GoAtlas.Source
