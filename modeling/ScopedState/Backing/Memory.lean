/-
`Backing/Memory.lean` -- units kept in memory.

The store holds the content of each unit by location, a set of read-only
locations, and a count of the writes it has carried out. Someone else may
change a unit behind the store's back; such an edit pays no attention to the
read-only set and is not counted.
-/
import ScopedState.Backing
set_option autoImplicit false

namespace ScopedState

/-- A backing store in memory. -/
structure Memory where
  files : Bindings Location Bytes := []
  readOnly : List Location := []
  writes : Nat := 0
  deriving DecidableEq, Repr, Inhabited

namespace Memory

/-- The content of a unit. -/
def contents (m : Memory) (unit : Path) : Option Bytes := Bindings.get? m.files unit.location

/-- Put content in place behind the store's back. -/
def putExternal (m : Memory) (unit : Path) (bytes : Bytes) : Memory :=
  { m with files := Bindings.insert m.files unit.location bytes }

/-- Remove a unit behind the store's back. -/
def removeExternal (m : Memory) (unit : Path) : Memory :=
  { m with files := Bindings.erase m.files unit.location }

/-- Make a unit read-only, or writable again. -/
def setReadOnly (m : Memory) (unit : Path) (on : Bool) : Memory :=
  { m with readOnly :=
      if on then Ascending.insert m.readOnly unit.location
      else m.readOnly.filter (· ≠ unit.location) }

/-- Whether a unit is not read-only. -/
def isWritable (m : Memory) (unit : Path) : Bool := !m.readOnly.contains unit.location

/-- The failure of changing a read-only unit. -/
def refusal (unit : Path) : Failure := .backing unit "unit is read-only"

/-- Write a unit, unless it is read-only. -/
def write (m : Memory) (unit : Path) (bytes : Bytes) : Outcome × Memory :=
  if m.isWritable unit then
    (.ok (), { m.putExternal unit bytes with writes := m.writes + 1 })
  else (.error (refusal unit), m)

/-- Delete a unit, unless it is read-only. -/
def delete (m : Memory) (unit : Path) : Outcome × Memory :=
  if m.isWritable unit then (.ok (), m.removeExternal unit) else (.error (refusal unit), m)

instance : Backing Memory where
  read m unit := .ok (m.contents unit)
  write := write
  delete := delete
  isWritable := isWritable

end Memory

end ScopedState
