namespace GoAtlas.Loose

/-- A double: `mantissa` times two to the `exponent`, or one of the values that are no number. -/
inductive Real where
  | finite (mantissa : Int) (exponent : Int)
  | infinite
  | undefined
  deriving DecidableEq, Repr

namespace Real

/-- Reads the bits of a double. -/
def ofBits (bits : UInt64) : Real :=
  let n := bits.toNat
  let negative := Nat.pow 2 63 ≤ n
  let exponent := n / Nat.pow 2 52 % Nat.pow 2 11
  let fraction := n % Nat.pow 2 52
  if exponent = 2047 then if fraction = 0 then .infinite else .undefined
  else
    let m : Nat := if exponent = 0 then fraction else fraction + Nat.pow 2 52
    .finite (if negative then -(m : Int) else m) ((max exponent 1 : Nat) - 1075)

/-- The double nearest to `digits` times ten to the `exponent`. -/
def ofDecimal (negative : Bool) (digits : Nat) (exponent : Int) : Real :=
  let x := Float.ofScientific digits (exponent < 0) exponent.natAbs
  match ofBits x.toBits with
  | .finite m e => .finite (if negative then -m else m) e
  | r => r

/-- The value of a double that is a whole number. -/
def whole? : Real → Option Int
  | .finite m e =>
    if 0 ≤ e then some (m * Int.pow 2 e.toNat)
    else if m % Int.pow 2 (-e).toNat = 0 then some (m / Int.pow 2 (-e).toNat)
    else none
  | _ => none

end Real

end GoAtlas.Loose
