/-
`Backing/Faulty.lean` -- a store that refuses some reads and writes.

Failures of a backing store are chosen from outside here: a set of units whose
reads fail, a set of units whose writes fail, and a switch that makes the
store forecast success for every write. Under these it is a store in memory.
A refused write leaves everything as it is.
-/
import ScopedState.Backing.Memory
set_option autoImplicit false

namespace ScopedState

/-- A store in memory, with refusals. -/
structure Faulty where
  memory : Memory := {}
  /-- The units whose reads fail. -/
  unreadable : List Location := []
  /-- The units whose writes fail. -/
  unwritable : List Location := []
  /-- Whether every write is expected to succeed. -/
  optimistic : Bool := false
  deriving DecidableEq, Repr, Inhabited

namespace Faulty

/-- A set of locations with one of them in it or not. -/
def switch (on : Bool) (unit : Path) (set : List Location) : List Location :=
  if on then Ascending.insert set unit.location else set.filter (· ≠ unit.location)

/-- Make reads of a unit fail, or work again. -/
def refuseReads (f : Faulty) (unit : Path) (on : Bool) : Faulty :=
  { f with unreadable := switch on unit f.unreadable }

/-- Make writes of a unit fail, or work again. -/
def refuseWrites (f : Faulty) (unit : Path) (on : Bool) : Faulty :=
  { f with unwritable := switch on unit f.unwritable }

/-- Read a unit. -/
def read (f : Faulty) (unit : Path) : Except Failure (Option Bytes) :=
  if f.unreadable.contains unit.location then .error (.backing unit "read refused")
  else .ok (f.memory.contents unit)

/-- Write a unit. A refusal comes before a unit's being read-only. -/
def write (f : Faulty) (unit : Path) (bytes : Bytes) : Outcome × Faulty :=
  if f.unwritable.contains unit.location then (.error (.backing unit "write refused"), f)
  else
    let out := f.memory.write unit bytes
    (out.1, { f with memory := out.2 })

/-- Delete a unit. -/
def delete (f : Faulty) (unit : Path) : Outcome × Faulty :=
  let out := f.memory.delete unit
  (out.1, { f with memory := out.2 })

instance : Backing Faulty where
  read := read
  write := write
  delete := delete
  isWritable f unit := f.optimistic || f.memory.isWritable unit

end Faulty

end ScopedState
