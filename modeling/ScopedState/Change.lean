/-
`Change.lean` -- changed units, and what their change means.

A change is reported as a unit, with the scope that owns it when that is
known. A change without an owner concerns every scope that maps the unit. What
comes out of comparing changed units with what was loaded is either the names
of the components that differ, or the verdict that the difference cannot be
told safely.
-/
import ScopedState.Path
set_option autoImplicit false

namespace ScopedState

/-- The identity of a scope. Scopes are numbered as they are made. -/
abbrev ScopeId := Nat

/-! ## 1. Changed units -/

/-- A unit known to have changed. -/
structure ChangedUnit where
  unit : Path
  owner : Option ScopeId
  deriving DecidableEq, Repr, Inhabited

/-- Whether a change concerns a scope: it has no owner, or that one. -/
def ChangedUnit.concerns (change : ChangedUnit) (scope : ScopeId) : Bool :=
  match change.owner with
  | none => true
  | some owner => owner = scope

/-- What makes two changes the same one. -/
structure ChangeKey where
  location : Location
  owner : Option ScopeId
  deriving DecidableEq, Repr

/-- The place of an owner in the order of changes at one location: no owner
comes first. -/
def ChangeKey.rank (key : ChangeKey) : Nat :=
  match key.owner with
  | none => 0
  | some owner => owner + 1

/-- Changes are ordered by location, and at one location by owner. -/
instance : LT ChangeKey where
  lt a b := a.location < b.location ∨ (a.location = b.location ∧ a.rank < b.rank)

instance (a b : ChangeKey) : Decidable (a < b) :=
  inferInstanceAs
    (Decidable (a.location < b.location ∨ (a.location = b.location ∧ a.rank < b.rank)))

/-- The key of a change. -/
def ChangedUnit.key (change : ChangedUnit) : ChangeKey :=
  ⟨change.unit.location, change.owner⟩

/-- A set of changes, in order, one text for each. -/
abbrev ChangeSet := Bindings ChangeKey ChangedUnit

namespace ChangeSet

/-- The set with a change in it. A text that stands for the change already
stays. -/
def record (changes : ChangeSet) (change : ChangedUnit) : ChangeSet :=
  Bindings.insertNew changes change.key change

/-- The set of the listed changes. Of several texts for one change the last
counts. -/
def ofList (changes : List ChangedUnit) : ChangeSet :=
  Bindings.ofList (changes.map fun change => (change.key, change))

/-- The changes, in order. -/
def toList (changes : ChangeSet) : List ChangedUnit := Bindings.values changes

/-- Whether some change is one of the unit `p` and concerns `scope`. -/
def affects (changes : ChangeSet) (p : Path) (scope : ScopeId) : Bool :=
  changes.toList.any fun change => change.unit.same p && change.concerns scope

end ChangeSet

/-! ## 2. Verdicts -/

/-- What has become of the components of some scopes on disk. -/
inductive ExternalChanges where
  /-- Exactly the named components differ from what was loaded. -/
  | reloadable (names : List String)
  /-- Whether they differ cannot be told safely. -/
  | unreloadable
  deriving DecidableEq, Repr, Inhabited

namespace ExternalChanges

/-- Nothing differs. -/
def unchanged : ExternalChanges := reloadable []

/-- Both verdicts together: one that is not safe spoils the other. -/
def merge : ExternalChanges → ExternalChanges → ExternalChanges
  | reloadable names, reloadable more => reloadable (Ascending.union names more)
  | _, _ => unreloadable

end ExternalChanges

/-- A unit that has to be written and is read-only, with the scope that has to
write it. -/
structure ReadOnlyTarget where
  scope : String
  unit : Path
  deriving DecidableEq, Repr, Inhabited

end ScopedState
