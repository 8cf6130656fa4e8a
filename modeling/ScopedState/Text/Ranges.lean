/-
`Text/Ranges.lean` -- classes of characters as ranges of their numbers.

A class is a list of ranges in rising order, both ends in. The tables of this
folder are written so; the large ones say beside them how many characters they
hold, and that their ranges do rise.
-/
set_option autoImplicit false

namespace ScopedState

/-- Ranges of scalar values, both ends in, in rising order. -/
abbrev Ranges := List (Nat × Nat)

namespace Ranges

/-- Whether some range holds `n`. The search ends at the first range that lies
behind it. -/
def holds : Ranges → Nat → Bool
  | [], _ => false
  | (low, high) :: rest, n => if n < low then false else n ≤ high || holds rest n

/-- How many numbers the ranges hold. -/
def size : Ranges → Nat
  | [] => 0
  | (low, high) :: rest => (high + 1 - low) + size rest

/-- Whether every range starts behind `bound` and behind the range in front of
it. -/
def rises : Nat → Ranges → Bool
  | _, [] => true
  | bound, (low, high) :: rest => bound ≤ low && low ≤ high && rises (high + 1) rest

end Ranges

end ScopedState
