/-
`Vault.lean` -- a backing store with the storages and components in memory.

Several scopes, sessions and staged writes hold on to one storage, and all of
them see what any of them does to it; the same goes for a component. So both
live in one place and are referred to by number. A number, once given out, is
never used for anything else.

The steps below are the only ones that touch the backing store on behalf of a
storage: loading, comparing, and carrying out a staged write.
-/
import ScopedState.Backing
import ScopedState.Component
import ScopedState.Storage
set_option autoImplicit false

namespace ScopedState

/-- The number of a storage. -/
abbrev StorageId := Nat

/-- The number of a component. -/
abbrev ComponentId := Nat

/-- A backing store with everything remembered of it and all components. -/
structure Vault (β δ : Type) where
  backing : β
  storages : List (Storage δ) := []
  components : List Component := []

/-- A write computed for a storage and not carried out yet. -/
structure StagedWrite (δ : Type) where
  storage : StorageId
  unit : Path
  draft : Draft δ

namespace Vault

variable {β δ : Type}

/-! ## 1. Storages and components by number -/

/-- The storage with a number. -/
def storage? (v : Vault β δ) (id : StorageId) : Option (Storage δ) := v.storages[id]?

/-- What is remembered of a storage; nothing for a number not in use. -/
def snapshot (v : Vault β δ) (id : StorageId) : Snapshot δ :=
  match v.storage? id with
  | some s => s.snapshot
  | none => {}

/-- Replace what is remembered of a storage. -/
def remember (v : Vault β δ) (id : StorageId) (snapshot : Snapshot δ) : Vault β δ :=
  { v with storages := v.storages.modify id fun s => { s with snapshot } }

/-- Add a storage; its number is the number of those before it. -/
def addStorage (v : Vault β δ) (s : Storage δ) : StorageId × Vault β δ :=
  (v.storages.length, { v with storages := v.storages ++ [s] })

/-- The component with a number. -/
def component? (v : Vault β δ) (id : ComponentId) : Option Component := v.components[id]?

/-- Change a component. -/
def modifyComponent (v : Vault β δ) (id : ComponentId) (f : Component → Component) : Vault β δ :=
  { v with components := v.components.modify id f }

/-- Add a component; its number is the number of those before it. -/
def addComponent (v : Vault β δ) (c : Component) : ComponentId × Vault β δ :=
  (v.components.length, { v with components := v.components ++ [c] })

/-! ## 2. Steps on a storage -/

section Steps

variable [Backing β] [DecidableEq δ] [Digest δ]

/-- Read a unit into a snapshot. -/
def readSnapshot (v : Vault β δ) (unit : Path) : Except Failure (Snapshot δ) :=
  match Backing.read v.backing unit with
  | .error e => .error e
  | .ok content => Snapshot.ofContent unit content

/-- **Load** a storage again. If that fails, what was remembered stays. -/
def load (v : Vault β δ) (id : StorageId) : Outcome × Vault β δ :=
  match v.storage? id with
  | none => (.ok (), v)
  | some s =>
    match v.readSnapshot s.unit with
    | .error e => (.error e, v)
    | .ok snapshot => (.ok (), v.remember id snapshot)

/-- **Stage** states for a storage. -/
def stage (v : Vault β δ) (id : StorageId) (states : States) : Option (StagedWrite δ) :=
  match v.storage? id with
  | none => none
  | some s => (s.snapshot.stage states).map fun draft => ⟨id, s.unit, draft⟩

/-- Bring a staged write up to date; none when nothing is left to write. -/
def rebase (v : Vault β δ) (w : StagedWrite δ) : Option (StagedWrite δ) :=
  ((v.snapshot w.storage).rebase w.draft).map fun draft => { w with draft }

/-- Remember a staged write as being on disk. -/
def commit (v : Vault β δ) (w : StagedWrite δ) : Vault β δ :=
  v.remember w.storage (Snapshot.ofDraft w.draft)

/-- **Carry out** a staged write: bring it up to date, write it, and remember
it if the write succeeds. -/
def carryOut (v : Vault β δ) (w : StagedWrite δ) : Outcome × Vault β δ :=
  match v.rebase w with
  | none => (.ok (), v)
  | some w =>
    match Backing.write v.backing w.unit w.draft.bytes with
    | (.ok (), backing) => (.ok (), { v with backing }.commit w)
    | (.error e, backing) => (.error e, { v with backing })

/-- **Compare** a storage with what is on disk now. -/
def changed (v : Vault β δ) (id : StorageId) (known : List String) :
    Except Failure (List String) :=
  match v.storage? id with
  | none => .ok []
  | some s =>
    match Backing.read v.backing s.unit with
    | .error e => .error e
    | .ok content => s.snapshot.changed s.unit content known

end Steps

end Vault

end ScopedState
