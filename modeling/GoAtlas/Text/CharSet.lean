namespace GoAtlas.Text

/-- Every `stride`-th code point from `first` to `last`. -/
structure Run where
  first : Nat
  last : Nat
  stride : Nat
  deriving DecidableEq, Repr

namespace Run

def contains (r : Run) (n : Nat) : Bool :=
  r.first ≤ n && n ≤ r.last && (n - r.first) % r.stride == 0

theorem contains_iff {r : Run} {n : Nat} :
    r.contains n = true ↔ r.first ≤ n ∧ n ≤ r.last ∧ (n - r.first) % r.stride = 0 := by
  simp [contains, and_assoc]

end Run

/-- A set of characters as a list of runs. -/
abbrev CharSet := List Run

namespace CharSet

def contains (s : CharSet) (c : Char) : Bool :=
  s.any (·.contains c.toNat)

theorem contains_iff {s : CharSet} {c : Char} :
    s.contains c = true ↔ ∃ r ∈ s, r.contains c.toNat = true := by
  simp [contains]

end CharSet

end GoAtlas.Text
