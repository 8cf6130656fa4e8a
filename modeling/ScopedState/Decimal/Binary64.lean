/-
`Decimal/Binary64.lean` -- binary floating point in natural numbers.

A finite double is a sign, a significand below `2^53` and a binary exponent;
its value is `± significand * 2^exponent`. Everything that is done with one
here (reading a decimal, multiplying and dividing by a power of ten) is one
operation: take an exact ratio of natural numbers and round it to the nearest
double, ties to the even significand. The ratio is exact, so there is a single
rounding per operation and its rule is visible.

The normal form is the usual one: a significand of 53 bits, or fewer bits at
the least exponent `-1074`. Zero has significand `0`.
-/
set_option autoImplicit false

namespace ScopedState

/-- A finite double. -/
structure Binary64 where
  negative : Bool
  significand : Nat
  exponent : Int
  deriving DecidableEq, Repr, Inhabited

namespace Binary64

/-! ## 1. Rounding a ratio -/

/-- The least binary exponent. -/
def leastExponent : Int := -1074

/-- The greatest binary exponent of a finite double. -/
def greatestExponent : Int := 971

/-- `num / den` to the nearest natural number, a half going to the even one. -/
def roundDiv (num den : Nat) : Nat :=
  let q := num / den
  let r := num % den
  if 2 * r < den then q
  else if den < 2 * r then q + 1
  else if q % 2 = 0 then q else q + 1

/-- `num / den` over `2^e`, as a ratio again. -/
def scaled (num den : Nat) (e : Int) : Nat × Nat :=
  if 0 ≤ e then (num, den * Nat.pow 2 e.toNat) else (num * Nat.pow 2 (-e).toNat, den)

/-- The exponent at which `num / den` has a whole part of 53 bits, or the
least exponent when that is greater. -/
def exponentOf (num den : Nat) : Int :=
  let guess : Int := (num.log2 : Int) - (den.log2 : Int) - 52
  let ratio := scaled num den guess
  let e := if ratio.1 / ratio.2 < Nat.pow 2 52 then guess - 1 else guess
  max leastExponent e

/-- Move a significand that rounding has carried to `2^53` back into range. -/
def normalize (m : Nat) (e : Int) : Nat × Int :=
  if m = Nat.pow 2 53 then (Nat.pow 2 52, e + 1) else (m, e)

/-- The double nearest to `± num / den`; none when it would be infinite. -/
def ofRatio? (negative : Bool) (num den : Nat) : Option Binary64 :=
  if num = 0 then some ⟨negative, 0, leastExponent⟩
  else
    let e := exponentOf num den
    let ratio := scaled num den e
    let out := normalize (roundDiv ratio.1 ratio.2) e
    if greatestExponent < out.2 then none else some ⟨negative, out.1, out.2⟩

/-! ## 2. Arithmetic -/

/-- The value of a double, sign apart, as a ratio. -/
def ratio (x : Binary64) : Nat × Nat :=
  if 0 ≤ x.exponent then (x.significand * Nat.pow 2 x.exponent.toNat, 1)
  else (x.significand, Nat.pow 2 (-x.exponent).toNat)

/-- The double nearest to a natural number below `2^1023`. -/
def ofNat (n : Nat) : Binary64 := (ofRatio? false n 1).getD ⟨false, 0, leastExponent⟩

/-- The product, rounded; none when it overflows. -/
def mul? (x y : Binary64) : Option Binary64 :=
  ofRatio? (x.negative != y.negative) (x.ratio.1 * y.ratio.1) (x.ratio.2 * y.ratio.2)

/-- The quotient by a double that is not zero, rounded. -/
def div? (x y : Binary64) : Option Binary64 :=
  ofRatio? (x.negative != y.negative) (x.ratio.1 * y.ratio.2) (x.ratio.2 * y.ratio.1)

/-- Whether two doubles are equal as numbers: the two zeros are. -/
def same (x y : Binary64) : Bool :=
  x.significand = y.significand &&
    (x.significand = 0 || (x.negative = y.negative && x.exponent = y.exponent))

/-- The double with its sign set. -/
def withSign (x : Binary64) (negative : Bool) : Binary64 := { x with negative := negative }

/-- One is `2^52` at the exponent `-52`. -/
example : ofNat 1 = ⟨false, Nat.pow 2 52, -52⟩ := by decide

/-- `2^53 + 1` lies half way and goes to the even neighbour. -/
example : ofNat (Nat.pow 2 53 + 1) = ⟨false, Nat.pow 2 52, 1⟩ := by decide

end Binary64

end ScopedState
