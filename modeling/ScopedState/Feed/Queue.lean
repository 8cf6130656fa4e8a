/-
`Feed/Queue.lean` -- events that wait for their path to become quiet.

An event is held back until nothing more has happened to its path for a while,
and successive events of a path are folded into one. When many paths are
waiting, all of them are let go at once. Time is a number of milliseconds and
may run backwards, which counts as no time at all.
-/
import ScopedState.Feed.Event
set_option autoImplicit false

namespace ScopedState.Feed

/-- How events are held back. -/
structure Timing where
  /-- How long a path has to be quiet. -/
  debounce : Nat
  /-- How many waiting paths let every event go. -/
  maxBatch : Nat
  /-- Whether successive events of a path are folded into one. -/
  coalesce : Bool
  deriving DecidableEq, Repr

/-- The waiting events: one per location, with the time of its last push. -/
structure Queue where
  timing : Timing
  pending : Bindings Location (Event × Nat) := []
  deriving Repr

namespace Queue

/-- The event that waits at a location once `event` has come in. -/
def merged (q : Queue) (event : Event) : Event :=
  match Bindings.get? q.pending event.path.location with
  | some (earlier, _) => if q.timing.coalesce then earlier.absorb event else event
  | none => event

/-- Take in an event. -/
def push (q : Queue) (event : Event) (now : Nat) : Queue :=
  { q with pending := Bindings.insert q.pending event.path.location (q.merged event, now) }

/-- Whether so many paths wait that all are let go. -/
def isFull (q : Queue) : Bool := q.timing.maxBatch ≤ q.pending.length

/-- Whether an event last pushed at `seen` is let go now. -/
def isDue (q : Queue) (now seen : Nat) : Bool := q.isFull || q.timing.debounce ≤ now - seen

/-- The events that are let go, in the order of their locations. -/
def ready (q : Queue) (now : Nat) : List Event :=
  (q.pending.filter fun entry => q.isDue now entry.2.2).map fun entry => entry.2.1

/-- The queue without them. -/
def rest (q : Queue) (now : Nat) : Queue :=
  { q with pending := q.pending.filter fun entry => !q.isDue now entry.2.2 }

/-- **Let go what is due.** -/
def drain (q : Queue) (now : Nat) : List Event × Queue := (q.ready now, q.rest now)

end Queue

end ScopedState.Feed
