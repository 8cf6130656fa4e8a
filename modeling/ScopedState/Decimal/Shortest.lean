/-
`Decimal/Shortest.lean` -- the fewest decimal digits that read back.

A double stands for every real number that rounds to it: an interval around
its value that reaches half way to each neighbour, and holds its two ends
exactly when the significand is even. For one digit, two digits and so on, the
decimals of that many digits form a grid, and of a grid only the two points
next to the value can lie in the interval. The first grid with a point in it
gives the digits; of two points the nearer one counts, and of two equally near
the even one.

All of it is a comparison of natural numbers: interval and grid are brought to
one denominator.
-/
import ScopedState.Decimal.Binary64
set_option autoImplicit false

namespace ScopedState.Shortest

/-- A decimal: `digits * 10^exponent`. -/
structure Decimal where
  digits : Nat
  exponent : Int
  deriving DecidableEq, Repr, Inhabited

/-! ## 1. The interval of a double -/

/-- The interval that rounds to a double: its value and its two ends, over one
denominator, and whether the ends belong to it. -/
structure Interval where
  low : Nat
  value : Nat
  high : Nat
  denominator : Nat
  closed : Bool

/-- The gap below a power of two is half the gap above it, the least exponent
apart. In quarters of the last place the ends are one or two below, two above. -/
def Interval.of (x : Binary64) : Interval :=
  let m := x.significand
  let below := if m = Nat.pow 2 52 && Binary64.leastExponent < x.exponent then 1 else 2
  let e := x.exponent - 2
  let scale := if 0 ≤ e then Nat.pow 2 e.toNat else 1
  { low := (4 * m - below) * scale
    value := 4 * m * scale
    high := (4 * m + 2) * scale
    denominator := if 0 ≤ e then 1 else Nat.pow 2 (-e).toNat
    closed := m % 2 = 0 }

/-! ## 2. The grid of a number of digits -/

/-- Whether `n` steps of `10^p` lie in the interval. -/
def Interval.holds (i : Interval) (n : Nat) (p : Int) : Bool :=
  let point := if 0 ≤ p then n * Nat.pow 10 p.toNat * i.denominator else n * i.denominator
  let unit := if 0 ≤ p then 1 else Nat.pow 10 (-p).toNat
  if i.closed then i.low * unit ≤ point && point ≤ i.high * unit
  else i.low * unit < point && point < i.high * unit

/-- The step of `10^p` at or below the value, and twice the rest against one
step: below, at or above one half. -/
def Interval.floor (i : Interval) (p : Int) : Nat × Ordering :=
  let num := if 0 ≤ p then i.value else i.value * Nat.pow 10 (-p).toNat
  let den := if 0 ≤ p then i.denominator * Nat.pow 10 p.toNat else i.denominator
  (num / den, compare (2 * (num % den)) den)

/-- The point of the grid `10^p` that stands for the interval, if one does. -/
def Interval.pick (i : Interval) (p : Int) : Option Nat :=
  let down := (i.floor p).1
  match i.holds down p && down ≠ 0, i.holds (down + 1) p with
  | true, false => some down
  | false, true => some (down + 1)
  | false, false => none
  | true, true =>
    match (i.floor p).2 with
    | .lt => some down
    | .gt => some (down + 1)
    | .eq => some (if down % 2 = 0 then down else down + 1)

/-! ## 3. The digits -/

/-- Go through the grids from coarse to fine. -/
def search (i : Interval) : Nat → Int → Decimal
  | 0, p => ⟨(i.floor p).1, p⟩
  | fuel + 1, p =>
    match i.pick p with
    | some n => ⟨n, p⟩
    | none => search i fuel (p - 1)

/-- Move zeros at the end of the digits into the exponent. -/
def trim : Nat → Decimal → Decimal
  | 0, d => d
  | fuel + 1, d =>
    if d.digits % 10 = 0 && d.digits ≠ 0 then trim fuel ⟨d.digits / 10, d.exponent + 1⟩ else d

/-- An upper bound of the decimal exponent of a value: `30103 / 100000` lies
just above the logarithm of two. -/
def topExponent (x : Binary64) : Int :=
  let bits : Int := (x.significand.log2 : Int) + 1 + x.exponent
  (bits * 30103) / 100000 + 1

/-- **The shortest decimal of a double**, its sign apart. -/
def of (x : Binary64) : Decimal :=
  if x.significand = 0 then ⟨0, 0⟩
  else trim 20 (search (Interval.of x) 20 (topExponent x))

/-- The digits of `0.1`. -/
example : of ⟨false, 7205759403792794, -56⟩ = ⟨1, -1⟩ := by decide

/-- The least positive double. -/
example : of ⟨false, 1, -1074⟩ = ⟨5, -324⟩ := by decide +kernel

end ScopedState.Shortest
