/-
`Json/Number.lean` -- what a number in a JSON text stands for.

A number is cut into digits first (`Literal`) and given its value afterwards.
A literal without a point and without an exponent is a whole number when it
fits 64 bits, signed or unsigned; `-0` does not count as whole. Every other
literal is a double, computed in two roundings: the first nineteen or twenty
digits, as many as fit an unsigned 64-bit word, are rounded to a double, and
that is multiplied or divided by a power of ten. The result may differ from
the nearest double in its last place, and a literal whose double would be
infinite is refused.
-/
import ScopedState.Json.Value
set_option autoImplicit false

namespace ScopedState.Json

/-- The digits of a number, part by part. -/
structure Literal where
  negative : Bool
  whole : List Nat
  fraction : Option (List Nat)
  /-- Whether the exponent is negative, and its digits. -/
  exponent : Option (Bool × List Nat)
  deriving DecidableEq, Repr

namespace Literal

/-! ## 1. Collecting digits -/

/-- The greatest unsigned 64-bit word. -/
def wordLimit : Nat := 18446744073709551615

/-- The greatest exponent that is still read digit by digit. -/
def exponentLimit : Nat := 2147483647

/-- Append digits to `n` as long as the result stays within `limit`. The
second component counts the digits that are left over. -/
def collect (limit n : Nat) : List Nat → Nat × Nat
  | [] => (n, 0)
  | d :: ds => if limit < n * 10 + d then (n, ds.length + 1) else collect limit (n * 10 + d) ds

/-! ## 2. Scaling by a power of ten -/

/-- `10^308`, the greatest power of ten that is a double, rounded to one. -/
def greatPower : Binary64 := Binary64.ofNat (Nat.pow 10 308)

/-- `x * 10^e`. An exponent below `-308` is worked off in steps of `308`;
three steps take the greatest significand to zero, so four always suffice. -/
def scaleBy : Nat → Binary64 → Int → Option Binary64
  | 0, x, _ => some x
  | steps + 1, x, e =>
    if e.natAbs ≤ 308 then
      if 0 ≤ e then x.mul? (Binary64.ofNat (Nat.pow 10 e.natAbs))
      else x.div? (Binary64.ofNat (Nat.pow 10 e.natAbs))
    else if x.significand = 0 then some x
    else if 0 ≤ e then none
    else (x.div? greatPower).bind fun y => scaleBy steps y (e + 308)

/-- The double `± n * 10^e`. -/
def double? (negative : Bool) (n : Nat) (e : Int) : Option Json :=
  (scaleBy 4 (Binary64.ofNat n) e).map fun x => .float (x.withSign negative)

/-! ## 3. The value of a literal -/

/-- A whole number, when it fits 64 bits. -/
def integer? (negative : Bool) (n : Nat) : Option Json :=
  if !negative then some (.integer n)
  else if n = 0 || Nat.pow 2 63 < n then none
  else some (.integer (-(n : Int)))

/-- **The value of a literal**; none when it is out of range. -/
def value? (l : Literal) : Option Json :=
  let (n, spare) := collect wordLimit 0 l.whole
  match l.fraction, l.exponent with
  | none, none =>
    if spare = 0 then
      match integer? l.negative n with
      | some v => some v
      | none => double? l.negative n 0
    else double? l.negative n spare
  | fraction, exponent =>
    let digits := fraction.getD []
    let (n, dropped) := collect wordLimit n digits
    let e : Int := (spare : Int) - ((digits.length - dropped : Nat) : Int)
    match exponent with
    | none => double? l.negative n e
    | some (down, digits) =>
      let (k, excess) := collect exponentLimit 0 digits
      if excess = 0 then double? l.negative n (if down then e - k else e + k)
      else if n ≠ 0 && !down then none
      else some (.float ⟨l.negative, 0, Binary64.leastExponent⟩)

/-- Minus zero is a double. -/
example : value? ⟨true, [0], none, none⟩ = some (.float ⟨true, 0, -1074⟩) := by rfl

end Literal

end ScopedState.Json
