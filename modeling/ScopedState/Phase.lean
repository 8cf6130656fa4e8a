/-
`Phase.lean` -- the life of a save session.

A session opens, collects what has to be written any number of times, and
then ends, either by writing it or by discarding it.
-/
set_option autoImplicit false

namespace ScopedState

/-- Where a save session stands. -/
inductive Phase where
  /-- Nothing has been collected yet. -/
  | open
  /-- Writes have been staged. -/
  | collecting
  /-- The staged writes have been carried out. -/
  | finished
  /-- The staged writes have been discarded. -/
  | reset
  deriving DecidableEq, Repr, Inhabited

namespace Phase

/-- The word for a phase. -/
def label : Phase → String
  | .open => "open"
  | collecting => "collecting"
  | finished => "finished"
  | reset => "reset"

/-- Whether the session has ended. -/
def isTerminal : Phase → Bool
  | .open => false
  | collecting => false
  | finished => true
  | reset => true

end Phase

end ScopedState
