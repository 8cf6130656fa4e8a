/-
`Session/Scripted.lean` -- participants that follow a script.

A scripted participant answers every call as it was told to and records the
call. It never refuses a call, not even one after its end, so the record of a
tree of scripted participants shows exactly which calls the tree lets through.
-/
import ScopedState.Session.Participant
set_option autoImplicit false

namespace ScopedState

/-- A participant that answers from a script. -/
structure Scripted where
  name : String
  units : List Path := []
  toSave : List Path := []
  readOnly : List Path := []
  changes : ExternalChanges := .unchanged
  saveFailure : Option Failure := none
  finishFailure : Option Failure := none
  resetFailure : Option Failure := none
  phase : Phase := .open
  deriving Repr, Inhabited

namespace Scripted

/-- A call of a participant, as it is recorded. -/
inductive Call where
  | save (name : String)
  | finish (name : String)
  | reset (name : String)
  | analyze (name : String)
  | files (below : Bool) (name : String)
  | filesToSave (below : Bool) (name : String)
  deriving DecidableEq, Repr

/-- The calls made so far, in order. -/
abbrev Record := List Call

/-- The outcome that a script tells. -/
def outcome (failure : Option Failure) : Outcome :=
  match failure with
  | some e => .error e
  | none => .ok ()

instance : Participant Scripted Record where
  scopeName := name
  phase := phase
  save s calls :=
    ⟨outcome s.saveFailure, s.readOnly.map fun unit => ⟨s.name, unit⟩,
      { s with phase := .collecting }, calls ++ [.save s.name]⟩
  finish s calls :=
    ⟨outcome s.finishFailure, { s with phase := .finished }, calls ++ [.finish s.name]⟩
  reset s calls :=
    ⟨outcome s.resetFailure, { s with phase := .reset }, calls ++ [.reset s.name]⟩
  analyze _ s calls := (s.changes, calls ++ [.analyze s.name])
  files below s calls := (Paths.ofList s.units, calls ++ [.files below s.name])
  filesToSave below s calls := (Paths.ofList s.toSave, calls ++ [.filesToSave below s.name])

end Scripted

end ScopedState
