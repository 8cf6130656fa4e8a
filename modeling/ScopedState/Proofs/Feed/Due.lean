/-
`Proofs/Feed/Due.lean` -- what a queue lets go, and when.

A queue is seen from outside through its calls only: events come in, and
batches come out. What it owes at a place can be told from these alone, without
looking inside. Going back through the calls, it is the events that came in for
the place, up to the last batch that had one of it (`since`).

The queue keeps one event and one time for a place, and they are a function of
that list: the events folded in the order they came, with the time of the last
of them (`Timing.summary`). A push adds one event to the list of one place and
folds one event into what waits there. A drain takes a place out of the queue
exactly when the batch has its event, which is when the list starts anew. So
the two go on agreeing call by call (`Course.Accounted`), and what a drain does
can be said in terms of the calls before it (`Course.LetsGo`).

Folding forgets most of what came in. It does not forget whether the file is
there: a folded event is a deletion just when the last one was, since the table
of `absorb` yields a deletion for one kind of later event only and always for
that kind.
-/
import ScopedState.Proofs.Feed
set_option autoImplicit false

namespace ScopedState.Feed

/-! ## 1. Folding a list of events -/

/-- Whether the event says that the file is gone. -/
def Event.isDeletion : Event → Bool
  | .deleted _ => true
  | _ => false

/-- **Folding keeps the last word** on whether the file is there. -/
theorem Event.absorb_isDeletion (earlier later : Event) :
    (earlier.absorb later).isDeletion = later.isDeletion := by
  cases earlier <;> cases later <;> rfl

namespace Timing

/-- The event that two successive ones leave. -/
def fold (timing : Timing) (earlier later : Event) : Event :=
  if timing.coalesce then earlier.absorb later else later

theorem fold_isDeletion (timing : Timing) (earlier later : Event) :
    (timing.fold earlier later).isDeletion = later.isDeletion := by
  rw [fold]
  split
  · exact earlier.absorb_isDeletion later
  · rfl

/-- What the events that came in, the latest first, leave: the event they are
folded into and the time of the last of them. -/
def summary (timing : Timing) : List (Event × Nat) → Option (Event × Nat)
  | [] => none
  | (event, now) :: earlier =>
    match timing.summary earlier with
    | none => some (event, now)
    | some (waiting, _) => some (timing.fold waiting event, now)

/-- There is something exactly when something came in. It has the time of the
last event, and is a deletion when that one is. -/
theorem summary_eq_some {timing : Timing} {events : List (Event × Nat)} {event : Event}
    {seen : Nat} (h : timing.summary events = some (event, seen)) :
    ∃ last earlier, events = (last, seen) :: earlier ∧ event.isDeletion = last.isDeletion := by
  cases events with
  | nil => cases h
  | cons latest earlier =>
    obtain ⟨last, now⟩ := latest
    rw [summary] at h
    split at h
    · obtain ⟨rfl, rfl⟩ := Prod.mk.inj (Option.some.inj h)
      exact ⟨last, earlier, rfl, rfl⟩
    · obtain ⟨rfl, rfl⟩ := Prod.mk.inj (Option.some.inj h)
      exact ⟨last, earlier, rfl, timing.fold_isDeletion _ _⟩

theorem summary_cons (timing : Timing) (last : Event) (seen : Nat) (earlier : List (Event × Nat)) :
    ∃ event, timing.summary ((last, seen) :: earlier) = some (event, seen) := by
  rw [summary]
  split <;> exact ⟨_, rfl⟩

end Timing

/-! ## 2. What one call does to a place -/

namespace Queue

/-- What waits at a place after a push. -/
theorem get?_push (q : Queue) (event : Event) (now : Nat) (place : Location) :
    Bindings.get? (q.push event now).pending place =
      if place = event.path.location then
        match Bindings.get? q.pending event.path.location with
        | none => some (event, now)
        | some (waiting, _) => some (q.timing.fold waiting event, now)
      else Bindings.get? q.pending place := by
  rw [push, Bindings.get?_insert, merged]
  split
  · cases Bindings.get? q.pending event.path.location with
    | none => rfl
    | some waiting => rfl
  · rfl

/-- **A batch has the event of a place** when one waits there that is due, and
it is that one. -/
theorem Filed.mem_ready_iff {q : Queue} (hq : q.Filed) (now : Nat) (event : Event)
    (place : Location) :
    (event ∈ q.ready now ∧ event.path.location = place) ↔
      ∃ seen, Bindings.get? q.pending place = some (event, seen) ∧ q.isDue now seen = true := by
  constructor
  · rintro ⟨hevent, rfl⟩
    obtain ⟨⟨place, waiting, seen⟩, hentry, rfl⟩ := List.mem_map.mp hevent
    obtain ⟨hentry, hdue⟩ := List.mem_filter.mp hentry
    refine ⟨seen, ?_, hdue⟩
    rw [hq.placed _ hentry]
    exact hq.sorted.get?_of_mem hentry
  · rintro ⟨seen, hwaits, hdue⟩
    have hentry := Bindings.mem_of_get? hwaits
    exact ⟨List.mem_map.mpr ⟨_, List.mem_filter.mpr ⟨hentry, hdue⟩, rfl⟩, hq.placed _ hentry⟩

/-- What waits at a place after a drain: nothing when the batch has its event, and
what waited otherwise. -/
theorem Filed.get?_rest {q : Queue} (hq : q.Filed) (now : Nat) (place : Location) :
    Bindings.get? (q.rest now).pending place =
      if ∃ event ∈ q.ready now, event.path.location = place then none
      else Bindings.get? q.pending place := by
  have hready := fun event => hq.mem_ready_iff now event place
  refine (hq.sorted.get?_filter _ place).trans ?_
  split
  · rename_i hgone
    obtain ⟨event, hevent⟩ := hgone
    obtain ⟨seen, hwaits, hdue⟩ := (hready event).mp hevent
    rw [hwaits, Option.filter_some, hdue]
    rfl
  · rename_i hstays
    cases hwaits : Bindings.get? q.pending place with
    | none => rfl
    | some waiting =>
      obtain ⟨event, seen⟩ := waiting
      have hnot : q.isDue now seen = false := Bool.eq_false_iff.mpr fun hdue =>
        hstays ⟨event, (hready event).mpr ⟨seen, hwaits, hdue⟩⟩
      rw [Option.filter_some, hnot]
      rfl

/-- The events of a batch are in the order of their places, which are different
ones. -/
theorem Filed.ready_ascending {q : Queue} (hq : q.Filed) (now : Nat) :
    (q.ready now).Pairwise fun a b => a.path.location < b.path.location := by
  have hsorted := hq.sorted.filter fun entry => q.isDue now entry.2.2
  refine List.pairwise_map.mpr (List.Pairwise.imp_of_mem ?_ hsorted)
  intro a b ha hb hlt
  rw [hq.placed a (List.mem_filter.mp ha).1, hq.placed b (List.mem_filter.mp hb).1]
  exact hlt

/-- When the queue is full everything is due, and otherwise it has no more
entries than it had. -/
theorem length_rest_lt {q : Queue} (hmax : 0 < q.timing.maxBatch) (now : Nat) :
    (q.rest now).pending.length < q.timing.maxBatch := by
  by_cases hfull : q.isFull = true
  · have hempty : (q.rest now).pending = [] := by
      refine List.filter_eq_nil_iff.mpr fun entry _ => ?_
      rw [isDue, hfull]
      exact Bool.false_ne_true
    rw [hempty]
    exact hmax
  · have hfew : q.pending.length < q.timing.maxBatch := by
      rw [isFull, decide_eq_true_iff] at hfull
      omega
    exact Nat.lt_of_le_of_lt (List.length_filter_le _ _) hfew

theorem isDue_iff (q : Queue) (now seen : Nat) :
    q.isDue now seen = true ↔
      q.timing.maxBatch ≤ q.pending.length ∨ q.timing.debounce ≤ now - seen := by
  rw [isDue, isFull, Bool.or_eq_true, decide_eq_true_iff, decide_eq_true_iff]

end Queue

/-! ## 3. Calls and what they leave outstanding -/

/-- A call of a queue. -/
inductive Call where
  /-- An event comes in. -/
  | push (event : Event) (now : Nat)
  /-- What is due is let go. -/
  | drain (now : Nat)
  deriving DecidableEq, Repr

/-- What is seen of a call. -/
inductive Happening where
  | came (event : Event) (now : Nat)
  | letGo (batch : List Event)
  deriving DecidableEq, Repr

/-- The events that came in for a place since a batch last had one of it, the
latest first. -/
def since (place : Location) : List Happening → List (Event × Nat)
  | [] => []
  | .came event now :: before =>
    if event.path.location = place then (event, now) :: since place before else since place before
  | .letGo batch :: before =>
    if ∃ event ∈ batch, event.path.location = place then [] else since place before

/-- A queue, and what was seen of it, the latest first. -/
structure Course where
  queue : Queue
  past : List Happening := []

namespace Course

/-- A queue in which nothing waits. -/
def start (timing : Timing) : Course := { queue := { timing } }

/-- One call. -/
def step (c : Course) : Call → Course
  | .push event now => { queue := c.queue.push event now, past := .came event now :: c.past }
  | .drain now =>
    { queue := (c.queue.drain now).2, past := .letGo (c.queue.drain now).1 :: c.past }

/-- One call after the other. -/
def run (c : Course) (calls : List Call) : Course := calls.foldl step c

/-- **What waits is what came in and was not let go.** -/
structure Accounted (c : Course) : Prop where
  filed : c.queue.Filed
  summed : ∀ place,
    Bindings.get? c.queue.pending place = c.queue.timing.summary (since place c.past)

/-- An event that comes in is folded into what waits, and counts as the latest of
its place. -/
theorem Accounted.push {c : Course} (hc : c.Accounted) (event : Event) (now : Nat) :
    (c.step (.push event now)).Accounted where
  filed := hc.filed.push event now
  summed place := by
    show Bindings.get? (c.queue.push event now).pending place =
      c.queue.timing.summary (since place (.came event now :: c.past))
    rw [Queue.get?_push, since]
    by_cases hplace : event.path.location = place
    · subst hplace
      rw [if_pos rfl, if_pos rfl, Timing.summary, hc.summed]
    · rw [if_neg (Ne.symm hplace), if_neg hplace]
      exact hc.summed place

/-- An event that is let go leaves nothing at its place, and nothing has come in
since then. -/
theorem Accounted.drain {c : Course} (hc : c.Accounted) (now : Nat) :
    (c.step (.drain now)).Accounted where
  filed := hc.filed.rest now
  summed place := by
    show Bindings.get? (c.queue.rest now).pending place =
      c.queue.timing.summary (since place (.letGo (c.queue.ready now) :: c.past))
    rw [hc.filed.get?_rest, since]
    split
    · rfl
    · exact hc.summed place

/-- **One call keeps the account.** -/
theorem Accounted.step {c : Course} (hc : c.Accounted) (call : Call) : (c.step call).Accounted := by
  cases call with
  | push event now => exact hc.push event now
  | drain now => exact hc.drain now

/-- **So does a run.** -/
theorem Accounted.run {c : Course} (hc : c.Accounted) (calls : List Call) :
    (c.run calls).Accounted := by
  induction calls generalizing c with
  | nil => exact hc
  | cons call rest ih => exact ih (hc.step call)

theorem accounted_start (timing : Timing) : (start timing).Accounted where
  filed := ⟨Bindings.sorted_nil, fun _ h => absurd h List.not_mem_nil⟩
  summed _ := rfl

theorem run_timing (c : Course) (calls : List Call) :
    (c.run calls).queue.timing = c.queue.timing := by
  induction calls generalizing c with
  | nil => rfl
  | cons call rest ih =>
    refine (ih (c.step call)).trans ?_
    cases call <;> rfl

/-! ## 4. What a drain lets go -/

/-- What a drain does, told from the calls before it. -/
structure LetsGo (c : Course) (now : Nat) : Prop where
  /-- The places that wait are those with an event outstanding, once each. -/
  distinct : (Bindings.keys c.queue.pending).Nodup
  outstanding : ∀ place, place ∈ Bindings.keys c.queue.pending ↔ since place c.past ≠ []
  /-- The batch is in the order of the places, and has one event of a place at
  most. -/
  ascending : (c.queue.drain now).1.Pairwise fun a b => a.path.location < b.path.location
  /-- A place is let go when its last event came in long enough ago, or when
  enough places wait. -/
  emitted_iff : ∀ place, (∃ event ∈ (c.queue.drain now).1, event.path.location = place) ↔
    ∃ last seen earlier, since place c.past = (last, seen) :: earlier ∧
      (c.queue.timing.maxBatch ≤ c.queue.pending.length ∨ c.queue.timing.debounce ≤ now - seen)
  /-- The places that are let go are gone, and the others keep event and time. -/
  kept : ∀ place, Bindings.get? (c.queue.drain now).2.pending place =
    if ∃ event ∈ (c.queue.drain now).1, event.path.location = place then none
    else Bindings.get? c.queue.pending place
  few : (c.queue.drain now).2.pending.length < c.queue.timing.maxBatch
  /-- The event that is let go is the one that waited, and it is a deletion when
  the last event that came in for its place is. -/
  lastWord : ∀ event ∈ (c.queue.drain now).1, ∃ last seen earlier,
    Bindings.get? c.queue.pending event.path.location = some (event, seen) ∧
      since event.path.location c.past = (last, seen) :: earlier ∧
      event.isDeletion = last.isDeletion

/-- With the account kept, a place has an event waiting that was last pushed at
`seen` exactly when the last event outstanding came in at `seen`. -/
theorem Accounted.exists_waiting_iff {c : Course} (hc : c.Accounted) (place : Location)
    (seen : Nat) :
    (∃ event, Bindings.get? c.queue.pending place = some (event, seen)) ↔
      ∃ last earlier, since place c.past = (last, seen) :: earlier := by
  rw [hc.summed]
  constructor
  · rintro ⟨event, hwaits⟩
    obtain ⟨last, earlier, hsince, _⟩ := Timing.summary_eq_some hwaits
    exact ⟨last, earlier, hsince⟩
  · rintro ⟨last, earlier, hsince⟩
    rw [hsince]
    exact Timing.summary_cons _ last seen earlier

theorem Accounted.outstanding_iff {c : Course} (hc : c.Accounted) (place : Location) :
    place ∈ Bindings.keys c.queue.pending ↔ since place c.past ≠ [] := by
  rw [Bindings.mem_keys_iff, Option.isSome_iff_exists]
  constructor
  · rintro ⟨⟨event, seen⟩, hwaits⟩ hempty
    obtain ⟨last, earlier, hsince⟩ := (hc.exists_waiting_iff place seen).mp ⟨event, hwaits⟩
    rw [hempty] at hsince
    cases hsince
  · intro hsome
    obtain ⟨⟨last, seen⟩, earlier, hsince⟩ := List.exists_cons_of_ne_nil hsome
    obtain ⟨event, hwaits⟩ := (hc.exists_waiting_iff place seen).mpr ⟨last, earlier, hsince⟩
    exact ⟨_, hwaits⟩

/-- **What is due goes, once, and nothing else does.** Whatever the calls before
and their times, a drain lets go the places whose last event came in long enough
ago, or all of them when there are enough; every other place keeps what waits
there. -/
theorem drain_letsGo (timing : Timing) (calls : List Call) (now : Nat)
    (hmax : 0 < timing.maxBatch) : ((start timing).run calls).LetsGo now := by
  have hc : ((start timing).run calls).Accounted := (accounted_start timing).run calls
  have htiming : ((start timing).run calls).queue.timing = timing := run_timing _ calls
  generalize (start timing).run calls = c at hc htiming
  have hready := hc.filed.mem_ready_iff now
  have hemitted : ∀ place, (∃ event ∈ c.queue.ready now, event.path.location = place) ↔
      ∃ event seen, Bindings.get? c.queue.pending place = some (event, seen) ∧
        c.queue.isDue now seen = true := fun place => exists_congr fun event => hready event place
  exact {
    distinct := hc.filed.sorted.nodup_keys
    outstanding := hc.outstanding_iff
    ascending := hc.filed.ready_ascending now
    emitted_iff := by
      intro place
      refine (hemitted place).trans ⟨?_, ?_⟩
      · rintro ⟨event, seen, hwaits, hdue⟩
        obtain ⟨last, earlier, hsince⟩ := (hc.exists_waiting_iff place seen).mp ⟨event, hwaits⟩
        exact ⟨last, seen, earlier, hsince, (c.queue.isDue_iff now seen).mp hdue⟩
      · rintro ⟨last, seen, earlier, hsince, hdue⟩
        obtain ⟨event, hwaits⟩ := (hc.exists_waiting_iff place seen).mpr ⟨last, earlier, hsince⟩
        exact ⟨event, seen, hwaits, (c.queue.isDue_iff now seen).mpr hdue⟩
    kept := hc.filed.get?_rest now
    few := Queue.length_rest_lt (htiming ▸ hmax) now
    lastWord := by
      intro event hevent
      obtain ⟨seen, hwaits, _⟩ := (hready event _).mp ⟨hevent, rfl⟩
      obtain ⟨last, earlier, hsince, hkind⟩ := Timing.summary_eq_some (hc.summed _ ▸ hwaits)
      exact ⟨last, seen, earlier, hwaits, hsince, hkind⟩ }

/-- A file that comes back and goes again, beside one that is still busy. -/
def backAndGone : List Call :=
  [.push (.deleted ⟨"/b"⟩) 0, .push (.created ⟨"/b"⟩) 10, .drain 20, .push (.deleted ⟨"/b"⟩) 30,
    .push (.created ⟨"/a"⟩) 120]

theorem drain_letsGo_backAndGone :
    0 < (⟨100, 3, true⟩ : Timing).maxBatch ∧
      ((start ⟨100, 3, true⟩).run backAndGone).LetsGo 130 ∧
      ((start ⟨100, 3, true⟩).run backAndGone |>.queue.drain 130).1 = [.deleted ⟨"/b"⟩] :=
  ⟨by decide, drain_letsGo ⟨100, 3, true⟩ backAndGone 130 (by decide), by decide +kernel⟩

end Course

end ScopedState.Feed
