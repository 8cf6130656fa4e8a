/-
`Proofs/Feed/Unseen.lean` -- what the next snapshot of a tracker has.

A tracker is handed batches of events and asked for snapshots, in any order. All that
it holds comes from the events since the last snapshot, the unseen ones: a batch adds
its events to them, and a snapshot leaves none (`Tracker.binds_after`). So whether the
next snapshot has a unit does not depend on how the events were batched, nor on
anything that was before the last snapshot.

An event that is unseen and names a unit settles the matter. Either the unit counts as
a temporary file, and then no event whatsoever could have put it into the snapshot, as
all paths to one location count alike; or it does not, and this event has done so.
-/
import Mathlib.Data.List.Induction
import ScopedState.Proofs.Feed
set_option autoImplicit false

namespace ScopedState.Feed.Tracker

/-! ## 1. Calls -/

/-- What may be asked of a tracker. -/
inductive Call where
  /-- To record a batch of events. -/
  | batch (events : List Event)
  /-- To hand out a snapshot. -/
  | snapshot
  deriving DecidableEq, Repr

/-- The tracker that is left by a call. -/
def call (t : Tracker) : Call → Tracker
  | .batch events => t.recordEvents events
  | .snapshot => t.takeSnapshot.2

/-- The tracker that is left by calls, one after the other. -/
def after (calls : List Call) : Tracker := calls.foldl call {}

/-- The events that a call leaves unseen. -/
def unseenBehind (seen : List Event) : Call → List Event
  | .batch events => seen ++ events
  | .snapshot => []

/-- The events recorded since the last snapshot. -/
def unseen (calls : List Call) : List Event := calls.foldl unseenBehind []

variable {calls before between : List Call} {events : List Event}

theorem after_concat (calls : List Call) (c : Call) : after (calls ++ [c]) = (after calls).call c :=
  List.foldl_append

theorem unseen_concat (calls : List Call) (c : Call) :
    unseen (calls ++ [c]) = unseenBehind (unseen calls) c := List.foldl_append

/-- **A tracker holds what the unseen events tell of**, and nothing else. -/
theorem binds_after (calls : List Call) (key : ChangeKey) :
    Bindings.binds (after calls).pending key = true ↔ ∃ event ∈ unseen calls, event.Tells key := by
  -- The last call decides what is left of those before it, so the induction is from the end.
  induction calls using List.reverseRecOn with
  | nil =>
    constructor
    · intro hbound
      cases hbound
    · rintro ⟨event, hevent, -⟩
      cases hevent
  | append_singleton calls c ih =>
    rw [after_concat, unseen_concat]
    cases c with
    | batch events =>
      rw [call, binds_recordEvents, ih, unseenBehind]
      simp only [List.mem_append, or_and_right, exists_or]
    | snapshot =>
      constructor
      · intro hbound
        cases hbound
      · rintro ⟨event, hevent, -⟩
        cases hevent

/-- **Recorded events stay unseen** until a snapshot is taken. -/
theorem mem_unseen (hbetween : Call.snapshot ∉ between) {event : Event} (hevent : event ∈ events) :
    event ∈ unseen (before ++ .batch events :: between) := by
  induction between using List.reverseRecOn with
  | nil =>
    rw [unseen_concat, unseenBehind]
    exact List.mem_append_right _ hevent
  | append_singleton between c ih =>
    have hearlier : Call.snapshot ∉ between := fun h => hbetween (List.mem_append_left _ h)
    rw [← List.cons_append, ← List.append_assoc, unseen_concat]
    cases c with
    | batch later =>
      exact List.mem_append_left _ (ih hearlier)
    | snapshot =>
      exact absurd (List.mem_append_right _ List.mem_cons_self) hbetween

/-! ## 2. The first snapshot after a batch -/

/-- **A unit that an event names** is in the first snapshot after the batch of the event,
exactly if it does not count as a temporary file. -/
theorem snapshot_has_iff {event : Event} {p u : Path} (hbetween : Call.snapshot ∉ between)
    (hevent : event ∈ events) (hp : p ∈ event.touched) (hlocation : p.location = u.location) :
    Bindings.binds (after (before ++ .batch events :: between)).takeSnapshot.1
        (⟨u, none⟩ : ChangedUnit).key = true ↔ isTemporary u = false := by
  have hsame : (⟨p, none⟩ : ChangedUnit).key = (⟨u, none⟩ : ChangedUnit).key := by
    rw [ChangedUnit.key, ChangedUnit.key, hlocation]
  rw [takeSnapshot, binds_after]
  constructor
  · -- Whichever path has been recorded, it is one of the location of the unit.
    rintro ⟨_, -, q, -, hlasting, hkey⟩
    have hq : q.location = u.location := congrArg ChangeKey.location hkey
    rw [← isTemporary_congr hq]
    exact hlasting
  · intro hlasting
    refine ⟨event, mem_unseen hbetween hevent, p, hp, ?_, hsame⟩
    rw [isTemporary_congr hlocation]
    exact hlasting

end ScopedState.Feed.Tracker
