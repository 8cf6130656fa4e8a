/-
`Feed/Tracker.lean` -- changed units, gathered until they are analysed.

The tracker is a set of changes. Events add the units they touch, both ends of
a rename among them, except for the temporary files that an atomic write
leaves behind for a moment. Taking a snapshot empties the tracker.
-/
import ScopedState.Change
import ScopedState.Feed.Event
set_option autoImplicit false

namespace ScopedState.Feed

/-- The changes seen since the last snapshot. -/
structure Tracker where
  pending : ChangeSet := []
  deriving Repr, Inhabited

namespace Tracker

/-- Whether a path is that of a temporary file. -/
def isTemporary (p : Path) : Bool := p.extension? = some "tmp"

/-- Record a change of a unit. -/
def record (t : Tracker) (unit : Path) (owner : Option ScopeId) : Tracker :=
  { t with pending := t.pending.record ⟨unit, owner⟩ }

/-- The units that a batch of events has changed. -/
def unitsOf (events : List Event) : List Path :=
  (events.flatMap Event.touched).filter fun p => !isTemporary p

/-- Record a batch of events. -/
def recordEvents (t : Tracker) (events : List Event) : Tracker :=
  (unitsOf events).foldl (fun t unit => t.record unit none) t

/-- Everything recorded so far, and an empty tracker. -/
def takeSnapshot (t : Tracker) : ChangeSet × Tracker := (t.pending, {})

end Tracker

end ScopedState.Feed
