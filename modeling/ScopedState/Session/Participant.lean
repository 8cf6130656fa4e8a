/-
`Session/Participant.lean` -- what takes part in a save.

A save session is a protocol in three calls. `save` stages what has to be
written, `finish` writes it, `reset` discards it; the last two end the
session. Besides, a session can be asked what external changes mean for it and
which units it is about.

Whatever answers these calls is a participant. It acts on a world that all
participants of a save share, so every call takes that world and gives it
back. Questions give it back as well: one who answers may want to keep a
record.
-/
import ScopedState.Change
import ScopedState.Failure
set_option autoImplicit false

namespace ScopedState

/-- What is left after a participant has staged its writes. -/
structure Saved (α σ : Type) where
  outcome : Outcome
  /-- The units that have to be written and are read-only. -/
  readOnly : List ReadOnlyTarget
  session : α
  world : σ

/-- What is left after a participant has finished or reset. -/
structure Ended (α σ : Type) where
  outcome : Outcome
  session : α
  world : σ

/-- Values of type `α` take part in saves over a world of type `σ`. -/
class Participant (α σ : Type) where
  /-- The name of the scope that takes part. -/
  scopeName : α → String
  /-- Where the participant stands. -/
  phase : α → Phase
  /-- Stage what has to be written. May be called again. -/
  save : α → σ → Saved α σ
  /-- Write what is staged. -/
  finish : α → σ → Ended α σ
  /-- Discard what is staged. -/
  reset : α → σ → Ended α σ
  /-- What the given changes mean for the participant's components. -/
  analyze : ChangeSet → α → σ → ExternalChanges × σ
  /-- The units of the participant, with those of scopes below if asked. -/
  files : Bool → α → σ → Paths × σ
  /-- The units with a staged write, with those of scopes below if asked. -/
  filesToSave : Bool → α → σ → Paths × σ

/-- The first failure of two outcomes. -/
def firstFailure : Outcome → Outcome → Outcome
  | .error e, _ => .error e
  | .ok (), o => o

/-- A session that has ended takes no more calls. -/
def checkPhase (phase : Phase) (operation : String) : Outcome :=
  if phase.isTerminal then .error (.invalidPhase phase operation) else .ok ()

end ScopedState
