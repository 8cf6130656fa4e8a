/-
`Pool.lean` -- one storage for one unit.

Scopes of a tree that map the same unit share its storage, so that each of
them merges into what the others last wrote. The pool finds the storage of a
unit. It does not keep a storage in use: an entry counts only as long as
somebody else holds the storage, and the first one to ask for the unit after
that gets a storage freshly loaded. Who holds what is known outside of the
pool, so every question comes with a test for it.
-/
import ScopedState.Vault
set_option autoImplicit false

namespace ScopedState

/-- The storages of a scope tree, by location. -/
abbrev Pool := Bindings Location StorageId

namespace Pool

variable {β δ : Type}

/-- The storage of a unit, if somebody holds it. -/
def find? (live : StorageId → Bool) (pool : Pool) (unit : Path) : Option StorageId :=
  match Bindings.get? pool unit.location with
  | some id => if live id then some id else none
  | none => none

/-- The number of storages that somebody holds. -/
def size (live : StorageId → Bool) (pool : Pool) : Nat :=
  ((Bindings.values pool).filter live).length

/-- **The storage of a unit**, loaded now unless somebody holds it. A unit that
cannot be loaded leaves the pool as it was. -/
def obtain [Backing β] [DecidableEq δ] [Digest δ] (live : StorageId → Bool) (pool : Pool)
    (unit : Path) (template : String) (v : Vault β δ) :
    Except Failure (StorageId × Pool × Vault β δ) :=
  match pool.find? live unit with
  | some id => .ok (id, pool, v)
  | none =>
    match v.readSnapshot unit with
    | .error e => .error e
    | .ok snapshot =>
      let (id, v) := v.addStorage { unit, template, snapshot }
      .ok (id, Bindings.insert pool unit.location id, v)

end Pool

end ScopedState
