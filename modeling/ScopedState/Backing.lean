/-
`Backing.lean` -- where units are kept.

A backing store reads, writes and deletes whole units. A read changes nothing;
a write or a deletion gives the store that is left, also when it fails,
because a failed write may have left something behind. Whether a unit is
writable is a forecast: a write to it may fail all the same.
-/
import ScopedState.Failure
import ScopedState.Text.Utf8
set_option autoImplicit false

namespace ScopedState

/-- Stores of type `β` keep units. -/
class Backing (β : Type) where
  /-- The content of a unit; none if there is no such unit. -/
  read : β → Path → Except Failure (Option Bytes)
  /-- Replace the content of a unit, making the unit if need be. -/
  write : β → Path → Bytes → Outcome × β
  /-- Remove a unit; one that is not there is no failure. -/
  delete : β → Path → Outcome × β
  /-- Whether a write to the unit can be expected to succeed. -/
  isWritable : β → Path → Bool

end ScopedState
