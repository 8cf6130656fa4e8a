/-
`Proofs/Feed.lean` -- what a feed gathers and what it loses.

Events go through two maps before anybody looks at them: the queue holds one
event per location until the location is quiet, and the tracker holds one entry
per changed unit until a snapshot is taken. What comes out in the end, over all
snapshots, is compared here with what recording every event at once would have
given.

An event tells of the path it is filed under and, when it is a rename, of the
path the file came from. Folding events of one location together never touches
the first: the folded event is filed there too. The second belongs to one event
only, and the event that comes in decides it. So a push loses exactly one
thing, the source of a rename that was waiting (`Queue.displaced`), and that
with folding as well as without. Draining and taking snapshots move entries and
lose none. One step at a time this gives a balance (`Gathering.step_balance`),
a whole run keeps it, and with nothing left in the queue it says what the
snapshots hold.
-/
import ScopedState.Feed.Queue
import ScopedState.Feed.Tracker
import ScopedState.Proofs.Bindings
set_option autoImplicit false

namespace ScopedState.Feed

/-! ## 1. The changes an event tells of -/

/-- A change of the path, with no known owner, is recorded under the key. -/
def Recorded (p : Path) (key : ChangeKey) : Prop :=
  Tracker.isTemporary p = false ∧ (⟨p, none⟩ : ChangedUnit).key = key

/-- Whether a path is temporary is a matter of its location. -/
theorem Tracker.isTemporary_congr {p q : Path} (h : p.location = q.location) :
    isTemporary p = isTemporary q := by
  rw [isTemporary, isTemporary, Path.extension?, Path.extension?, Path.fileName?, Path.fileName?, h]

/-- So what is recorded for it is one, too. -/
theorem Recorded.congr {p q : Path} {key : ChangeKey} (h : p.location = q.location) :
    Recorded p key ↔ Recorded q key := by
  rw [Recorded, Recorded, Tracker.isTemporary_congr h, ChangedUnit.key, ChangedUnit.key, h]

namespace Event

/-- The path that a rename came from. -/
def sources : Event → List Path
  | renamed source _ => [source]
  | _ => []

/-- Recording the event records the key. -/
def Tells (event : Event) (key : ChangeKey) : Prop := ∃ p ∈ event.touched, Recorded p key

/-- An event touches the path it is filed under and its source. -/
theorem mem_touched_iff (event : Event) (p : Path) :
    p ∈ event.touched ↔ p = event.path ∨ p ∈ event.sources := by
  cases event with
  | renamed source target =>
    simp only [touched, path, sources, List.mem_cons, List.not_mem_nil, or_false]
    exact Or.comm
  | created q | modified q | deleted q =>
    simp only [touched, path, sources, List.mem_cons, List.not_mem_nil]

theorem tells_iff (event : Event) (key : ChangeKey) :
    event.Tells key ↔ Recorded event.path key ∨ ∃ p ∈ event.sources, Recorded p key := by
  simp only [Tells, mem_touched_iff, or_and_right, exists_or, exists_eq_left]

/-- **A folded event has the source of the later one.** -/
theorem absorb_sources (earlier later : Event) :
    (earlier.absorb later).sources = later.sources := by
  cases earlier <;> cases later <;> rfl

/-- It is filed where the two were. -/
theorem absorb_location {earlier later : Event}
    (h : earlier.path.location = later.path.location) :
    (earlier.absorb later).path.location = later.path.location := by
  cases earlier <;> cases later <;> first | exact h | rfl

end Event

namespace Tracker

/-- **A recorded unit is bound** beside all that was. -/
theorem binds_record (t : Tracker) (unit : Path) (key : ChangeKey) :
    Bindings.binds (t.record unit none).pending key = true ↔
      Bindings.binds t.pending key = true ∨ (⟨unit, none⟩ : ChangedUnit).key = key := by
  rw [record, ChangeSet.record, Bindings.insertNew]
  split
  · rename_i hbound
    refine ⟨Or.inl, Or.rec id ?_⟩
    rintro rfl
    exact hbound
  · rw [Bindings.binds, Bindings.get?_insert]
    by_cases hkey : key = (⟨unit, none⟩ : ChangedUnit).key
    · rw [if_pos hkey]
      exact iff_of_true rfl (Or.inr hkey.symm)
    · rw [if_neg hkey]
      exact (or_iff_left (Ne.symm hkey)).symm

/-- Units are recorded one after the other. -/
theorem binds_foldl_record (units : List Path) (t : Tracker) (key : ChangeKey) :
    Bindings.binds (units.foldl (fun t unit => t.record unit none) t).pending key = true ↔
      Bindings.binds t.pending key = true ∨
        ∃ p ∈ units, (⟨p, none⟩ : ChangedUnit).key = key := by
  induction units generalizing t with
  | nil => simp
  | cons unit rest ih =>
    rw [List.foldl_cons, ih, binds_record, or_assoc]
    simp only [List.mem_cons, or_and_right, exists_or, exists_eq_left]

/-- **A batch adds what its events tell of.** -/
theorem binds_recordEvents (t : Tracker) (events : List Event) (key : ChangeKey) :
    Bindings.binds (t.recordEvents events).pending key = true ↔
      Bindings.binds t.pending key = true ∨ ∃ event ∈ events, event.Tells key := by
  have hunits : (∃ p ∈ unitsOf events, (⟨p, none⟩ : ChangedUnit).key = key) ↔
      ∃ event ∈ events, event.Tells key := by
    constructor
    · rintro ⟨p, hp, hkey⟩
      obtain ⟨hp, hlasting⟩ := List.mem_filter.mp hp
      obtain ⟨event, hevent, htouched⟩ := List.mem_flatMap.mp hp
      exact ⟨event, hevent, p, htouched, (Bool.not_eq_true' _).mp hlasting, hkey⟩
    · rintro ⟨event, hevent, p, htouched, hlasting, hkey⟩
      have hp : p ∈ events.flatMap Event.touched := List.mem_flatMap.mpr ⟨event, hevent, htouched⟩
      exact ⟨p, List.mem_filter.mpr ⟨hp, (Bool.not_eq_true' _).mpr hlasting⟩, hkey⟩
  rw [recordEvents, binds_foldl_record, hunits]

end Tracker

/-! ## 2. The queue -/

namespace Queue

/-- What some waiting event tells of. -/
def Tells (q : Queue) (key : ChangeKey) : Prop := ∃ entry ∈ q.pending, entry.2.1.Tells key

/-- The source of the rename that a push of `event` puts an end to. -/
def displaced (q : Queue) (event : Event) : List Path :=
  match Bindings.get? q.pending event.path.location with
  | some (earlier, _) => earlier.sources
  | none => []

/-- The waiting events are filed under their locations, in order. -/
structure Filed (q : Queue) : Prop where
  sorted : Bindings.Sorted q.pending
  placed : ∀ entry ∈ q.pending, entry.2.1.path.location = entry.1

/-- The event that comes in decides which source is kept. -/
theorem merged_sources (q : Queue) (event : Event) : (q.merged event).sources = event.sources := by
  rw [merged]
  split
  · split
    · exact Event.absorb_sources _ _
    · rfl
  · rfl

/-- The event that waits afterwards is filed where it came in. -/
theorem Filed.merged_location {q : Queue} (hq : q.Filed) (event : Event) :
    (q.merged event).path.location = event.path.location := by
  rw [merged]
  split
  · rename_i earlier seen hwaits
    split
    · exact Event.absorb_location (hq.placed _ (Bindings.mem_of_get? hwaits))
    · rfl
  · rfl

theorem Filed.push {q : Queue} (hq : q.Filed) (event : Event) (now : Nat) :
    (q.push event now).Filed where
  sorted := hq.sorted.insert _ _
  placed entry hentry := by
    rcases Bindings.mem_insert hentry with rfl | hold
    · exact hq.merged_location event
    · exact hq.placed entry hold

theorem Filed.rest {q : Queue} (hq : q.Filed) (now : Nat) : (q.rest now).Filed where
  sorted := hq.sorted.filter _
  placed entry hentry := hq.placed entry (List.mem_filter.mp hentry).1

/-- What the event at a location tells of, and what the others do. -/
theorem Filed.tells_iff {q : Queue} (hq : q.Filed) (key : ChangeKey) :
    q.Tells key ↔ ∃ place event seen,
      Bindings.get? q.pending place = some (event, seen) ∧ event.Tells key := by
  constructor
  · rintro ⟨⟨place, event, seen⟩, hentry, htells⟩
    exact ⟨place, event, seen, hq.sorted.get?_of_mem hentry, htells⟩
  · rintro ⟨place, event, seen, hwaits, htells⟩
    exact ⟨(place, event, seen), Bindings.mem_of_get? hwaits, htells⟩

/-- **The balance of one location.** What waited there and what comes in is what
waits there afterwards, and the source that is displaced. -/
theorem Filed.merged_tells {q : Queue} (hq : q.Filed) (event : Event) (key : ChangeKey) :
    ((q.merged event).Tells key ∨ ∃ p ∈ q.displaced event, Recorded p key) ↔
      (∃ earlier seen, Bindings.get? q.pending event.path.location = some (earlier, seen) ∧
        earlier.Tells key) ∨ event.Tells key := by
  have hmerged : (q.merged event).Tells key ↔ event.Tells key := by
    rw [Event.tells_iff, Event.tells_iff, q.merged_sources event,
      Recorded.congr (hq.merged_location event)]
  rw [hmerged, displaced]
  cases hwaits : Bindings.get? q.pending event.path.location with
  | none => simp
  | some waiting =>
    obtain ⟨earlier, seen⟩ := waiting
    have hplaced : earlier.path.location = event.path.location :=
      hq.placed _ (Bindings.mem_of_get? hwaits)
    constructor
    · rintro (htells | hsource)
      · exact Or.inr htells
      · exact Or.inl ⟨earlier, seen, rfl, (earlier.tells_iff key).mpr (Or.inr hsource)⟩
    · rintro (⟨_, _, hsame, htells⟩ | htells)
      · obtain ⟨rfl, rfl⟩ := Prod.mk.inj (Option.some.inj hsame)
        -- The path of the waiting event is that of the one coming in, up to its text.
        rcases (earlier.tells_iff key).mp htells with hpath | hsource
        · exact Or.inl ((event.tells_iff key).mpr (Or.inl ((Recorded.congr hplaced).mp hpath)))
        · exact Or.inr hsource
      · exact Or.inl htells

/-- **The balance of a push.** -/
theorem Filed.push_tells {q : Queue} (hq : q.Filed) (event : Event) (now : Nat)
    (key : ChangeKey) :
    ((q.push event now).Tells key ∨ ∃ p ∈ q.displaced event, Recorded p key) ↔
      q.Tells key ∨ event.Tells key := by
  have hlookup : ∀ place, Bindings.get? (q.push event now).pending place =
      if place = event.path.location then some (q.merged event, now)
      else Bindings.get? q.pending place := Bindings.get?_insert _ _ _
  constructor
  · intro h
    have hhere : (q.merged event).Tells key ∨ (∃ p ∈ q.displaced event, Recorded p key) →
        q.Tells key ∨ event.Tells key := by
      intro h
      refine ((hq.merged_tells event key).mp h).imp_left ?_
      rintro ⟨earlier, seen, hwaits, htells⟩
      exact (hq.tells_iff key).mpr ⟨_, earlier, seen, hwaits, htells⟩
    rcases h with htells | hsource
    · obtain ⟨place, waiting, seen, hwaits, htells⟩ := ((hq.push event now).tells_iff key).mp htells
      rw [hlookup] at hwaits
      split at hwaits
      · rw [← (Prod.mk.inj (Option.some.inj hwaits)).1] at htells
        exact hhere (Or.inl htells)
      · exact Or.inl ((hq.tells_iff key).mpr ⟨place, waiting, seen, hwaits, htells⟩)
    · exact hhere (Or.inr hsource)
  · intro h
    have hhere : (∃ earlier seen, Bindings.get? q.pending event.path.location =
          some (earlier, seen) ∧ earlier.Tells key) ∨ event.Tells key →
        (q.push event now).Tells key ∨ ∃ p ∈ q.displaced event, Recorded p key := by
      intro h
      refine ((hq.merged_tells event key).mpr h).imp_left fun htells => ?_
      refine ((hq.push event now).tells_iff key).mpr
        ⟨event.path.location, q.merged event, now, ?_, htells⟩
      rw [hlookup, if_pos rfl]
    rcases h with htells | htells
    · obtain ⟨place, waiting, seen, hwaits, htells⟩ := (hq.tells_iff key).mp htells
      by_cases hplace : place = event.path.location
      · rw [hplace] at hwaits
        exact hhere (Or.inl ⟨waiting, seen, hwaits, htells⟩)
      · refine Or.inl (((hq.push event now).tells_iff key).mpr
          ⟨place, waiting, seen, ?_, htells⟩)
        rw [hlookup, if_neg hplace]
        exact hwaits
    · exact hhere (Or.inr htells)

/-- **The balance of a drain.** An event is let go or goes on waiting. -/
theorem drain_tells (q : Queue) (now : Nat) (key : ChangeKey) :
    ((∃ event ∈ q.ready now, event.Tells key) ∨ (q.rest now).Tells key) ↔ q.Tells key := by
  constructor
  · rintro (⟨event, hevent, htells⟩ | ⟨entry, hentry, htells⟩)
    · obtain ⟨entry, hentry, rfl⟩ := List.mem_map.mp hevent
      exact ⟨entry, (List.mem_filter.mp hentry).1, htells⟩
    · exact ⟨entry, (List.mem_filter.mp hentry).1, htells⟩
  · rintro ⟨entry, hentry, htells⟩
    cases hdue : q.isDue now entry.2.2 with
    | true =>
      exact Or.inl ⟨_, List.mem_map.mpr ⟨entry, List.mem_filter.mpr ⟨hentry, hdue⟩, rfl⟩, htells⟩
    | false =>
      refine Or.inr ⟨entry, List.mem_filter.mpr ⟨hentry, ?_⟩, htells⟩
      rw [hdue]
      rfl

end Queue

/-! ## 3. Runs -/

/-- What may happen to a feed. -/
inductive Step where
  /-- An event comes in. -/
  | push (event : Event) (now : Nat)
  /-- What is due is let go, and recorded. -/
  | drain (now : Nat)
  /-- A snapshot is taken. -/
  | snapshot

/-- The events that come in. -/
def pushed (steps : List Step) : List Event :=
  steps.filterMap fun
    | .push event _ => some event
    | _ => none

/-- A feed, its tracker and the snapshots taken so far. -/
structure Gathering where
  queue : Queue
  tracker : Tracker := {}
  taken : List ChangeSet := []

namespace Gathering

/-- An empty feed. -/
def start (timing : Timing) : Gathering := { queue := { timing } }

/-- One step. -/
def step (g : Gathering) : Step → Gathering
  | .push event now => { g with queue := g.queue.push event now }
  | .drain now =>
    { g with tracker := g.tracker.recordEvents (g.queue.drain now).1,
             queue := (g.queue.drain now).2 }
  | .snapshot =>
    { g with taken := g.taken ++ [g.tracker.takeSnapshot.1], tracker := g.tracker.takeSnapshot.2 }

/-- One step after the other. -/
def run (g : Gathering) (steps : List Step) : Gathering := steps.foldl step g

/-- Some snapshot has the change. -/
def gathered (g : Gathering) (key : ChangeKey) : Bool :=
  g.taken.any fun changes => Bindings.binds changes key

/-- The sources of the renames that the steps put an end to before they are let
go. -/
def displaced (g : Gathering) : List Step → List Path
  | [] => []
  | .push event now :: rest =>
    g.queue.displaced event ++ (g.step (.push event now)).displaced rest
  | step :: rest => (g.step step).displaced rest

/-- What the feed has of a change: an event that waits, an entry of the tracker
or of a snapshot. -/
def Has (g : Gathering) (key : ChangeKey) : Prop :=
  g.queue.Tells key ∨ Bindings.binds g.tracker.pending key = true ∨ g.gathered key = true

theorem gathered_snapshot (g : Gathering) (key : ChangeKey) :
    (g.step .snapshot).gathered key = true ↔
      g.gathered key = true ∨ Bindings.binds g.tracker.pending key = true := by
  rw [gathered, gathered, step, Tracker.takeSnapshot, List.any_append, List.any_cons, List.any_nil,
    Bool.or_false, Bool.or_eq_true]

/-- The queue stays in order. -/
theorem step_filed {g : Gathering} (hg : g.queue.Filed) (step : Step) :
    (g.step step).queue.Filed := by
  cases step with
  | push event now => exact hg.push event now
  | drain now => exact hg.rest now
  | snapshot => exact hg

/-- **The balance of one step.** What it has afterwards and what it loses is what
it had and what came in. -/
theorem step_balance {g : Gathering} (hg : g.queue.Filed) (step : Step) (key : ChangeKey) :
    ((g.step step).Has key ∨ ∃ p ∈ g.displaced [step], Recorded p key) ↔
      g.Has key ∨ ∃ event ∈ pushed [step], event.Tells key := by
  cases step with
  | push event now =>
    have hbalance := hg.push_tells event now key
    have hlost : g.displaced [.push event now] = g.queue.displaced event := List.append_nil _
    have hnew : (∃ e ∈ pushed [.push event now], e.Tells key) ↔ event.Tells key := by
      simp [pushed]
    rw [hlost, hnew]
    show ((g.queue.push event now).Tells key ∨ _) ∨ _ ↔ (g.queue.Tells key ∨ _) ∨ _
    rw [or_right_comm, hbalance, or_right_comm]
    exact Iff.rfl
  | drain now =>
    have hnone : ¬ ∃ p ∈ g.displaced [.drain now], Recorded p key := by
      rintro ⟨p, hp, _⟩
      exact List.not_mem_nil hp
    have hno : ¬ ∃ e ∈ pushed [.drain now], e.Tells key := by
      rintro ⟨e, he, _⟩
      exact List.not_mem_nil he
    rw [or_iff_left hnone, or_iff_left hno]
    have hbalance := g.queue.drain_tells now key
    have hrecorded := g.tracker.binds_recordEvents (g.queue.ready now) key
    show ((g.queue.rest now).Tells key ∨
        Bindings.binds (g.tracker.recordEvents (g.queue.ready now)).pending key = true ∨
        g.gathered key = true) ↔ g.Has key
    rw [hrecorded, Has, ← hbalance]
    grind
  | snapshot =>
    have hnone : ¬ ∃ p ∈ g.displaced [.snapshot], Recorded p key := by
      rintro ⟨p, hp, _⟩
      exact List.not_mem_nil hp
    have hno : ¬ ∃ e ∈ pushed [.snapshot], e.Tells key := by
      rintro ⟨e, he, _⟩
      exact List.not_mem_nil he
    rw [or_iff_left hnone, or_iff_left hno, Has, gathered_snapshot, Has]
    have hempty : ¬ Bindings.binds (g.step .snapshot).tracker.pending key = true :=
      Bool.false_ne_true
    rw [or_iff_right hempty, or_comm (a := g.gathered key = true)]
    exact Iff.rfl

/-- What the steps displace, the first one before the others. -/
theorem displaced_cons (g : Gathering) (step : Step) (rest : List Step) :
    g.displaced (step :: rest) = g.displaced [step] ++ (g.step step).displaced rest := by
  cases step with
  | push event now => simp only [displaced, List.append_nil]
  | drain now => rfl
  | snapshot => rfl

/-- **The balance of a run.** -/
theorem run_balance {g : Gathering} (hg : g.queue.Filed) (steps : List Step) (key : ChangeKey) :
    ((g.run steps).Has key ∨ ∃ p ∈ g.displaced steps, Recorded p key) ↔
      g.Has key ∨ ∃ event ∈ pushed steps, event.Tells key := by
  induction steps generalizing g with
  | nil => exact or_congr_right (by simp [displaced, pushed])
  | cons step rest ih =>
    have hhead := step_balance hg step key
    have htail := ih (step_filed hg step)
    have hpushed : pushed (step :: rest) = pushed [step] ++ pushed rest := by
      rw [pushed, ← List.singleton_append, List.filterMap_append, pushed, pushed]
    rw [displaced_cons, hpushed, run, List.foldl_cons, ← run]
    simp only [List.mem_append, or_and_right, exists_or]
    rw [← or_assoc (a := g.Has key), ← hhead, or_right_comm, ← htail]
    grind

/-- A feed that starts has nothing, in order. -/
theorem start_filed (timing : Timing) : (start timing).queue.Filed where
  sorted := Bindings.sorted_nil
  placed _ hentry := absurd hentry List.not_mem_nil

theorem not_start_has (timing : Timing) (key : ChangeKey) : ¬ (start timing).Has key := by
  rintro (⟨entry, hentry, _⟩ | hbound | hgathered)
  · exact List.not_mem_nil hentry
  · exact Bool.false_ne_true hbound
  · exact Bool.false_ne_true hgathered

/-! ## 4. What the snapshots hold -/

/-- **What a feed loses.** When nothing is left in the queue, a change that
recording every event at once would have recorded is in some snapshot or is the
change of a displaced source; and the snapshots hold all of them exactly when
each displaced source that is not temporary came into a snapshot otherwise. -/
theorem snapshots_complete_iff (timing : Timing) (steps : List Step)
    (hdrained : ((start timing).run steps).queue.pending = []) :
    (∀ key, Bindings.binds (({} : Tracker).recordEvents (pushed steps)).pending key = true ↔
        ((start timing).run (steps ++ [.snapshot])).gathered key = true ∨
          ∃ p ∈ (start timing).displaced steps, Recorded p key) ∧
      ((∀ key, ((start timing).run (steps ++ [.snapshot])).gathered key =
          Bindings.binds (({} : Tracker).recordEvents (pushed steps)).pending key) ↔
        ∀ p ∈ (start timing).displaced steps, Tracker.isTemporary p = false →
          ((start timing).run (steps ++ [.snapshot])).gathered
            (⟨p, none⟩ : ChangedUnit).key = true) := by
  have hlast : (start timing).run (steps ++ [.snapshot]) =
      ((start timing).run steps).step .snapshot := List.foldl_append
  have hhas : ∀ key, ((start timing).run steps).Has key ↔
      ((start timing).run (steps ++ [.snapshot])).gathered key = true := by
    intro key
    have hwaiting : ¬ ((start timing).run steps).queue.Tells key := by
      rintro ⟨entry, hentry, _⟩
      rw [hdrained] at hentry
      exact List.not_mem_nil hentry
    rw [Has, or_iff_right hwaiting, hlast, gathered_snapshot]
    exact Or.comm
  have hdirect : ∀ key,
      Bindings.binds (({} : Tracker).recordEvents (pushed steps)).pending key = true ↔
        ((start timing).run (steps ++ [.snapshot])).gathered key = true ∨
          ∃ p ∈ (start timing).displaced steps, Recorded p key := by
    intro key
    have hempty : ¬ Bindings.binds ({} : Tracker).pending key = true := Bool.false_ne_true
    rw [Tracker.binds_recordEvents, or_iff_right hempty, ← hhas, run_balance (start_filed timing),
      or_iff_right (not_start_has timing key)]
  refine ⟨hdirect, fun hall p hp hlasting => ?_, fun hkept key => ?_⟩
  · rw [hall, hdirect]
    exact Or.inr ⟨p, hp, hlasting, rfl⟩
  · rw [Bool.eq_iff_iff, hdirect]
    refine ⟨Or.inl, Or.rec id ?_⟩
    rintro ⟨p, hp, hlasting, rfl⟩
    exact hkept p hp hlasting

/-- A rename that is let go before its target is modified. -/
def renamedThenModified : List Step :=
  [.push (.created ⟨"/p/a"⟩) 0, .push (.renamed ⟨"/p/a"⟩ ⟨"/p/b"⟩) 10, .drain 60,
    .push (.modified ⟨"/p/b"⟩) 70, .snapshot, .drain 200]

theorem snapshots_complete_renamed :
    ((start ⟨50, 100, true⟩).run renamedThenModified).queue.pending = [] ∧
      ∀ key, ((start ⟨50, 100, true⟩).run (renamedThenModified ++ [.snapshot])).gathered key =
        Bindings.binds (({} : Tracker).recordEvents (pushed renamedThenModified)).pending key := by
  have hdrained : ((start ⟨50, 100, true⟩).run renamedThenModified).queue.pending = [] := by
    decide +kernel
  have hnone : (start ⟨50, 100, true⟩).displaced renamedThenModified = [] := by decide +kernel
  refine ⟨hdrained, (snapshots_complete_iff _ _ hdrained).2.mpr fun p hp _ => ?_⟩
  rw [hnone] at hp
  exact absurd hp List.not_mem_nil

/-- A rename whose target is modified while it waits. -/
def renamedAndModified : List Step :=
  [.push (.renamed ⟨"/a"⟩ ⟨"/b"⟩) 0, .push (.modified ⟨"/b"⟩) 10, .drain 1000]

/-- **The source of a rename gets lost.** Nothing is left in the queue, and no
snapshot has `/a`. -/
theorem rename_source_lost :
    ((start ⟨100, 100, true⟩).run renamedAndModified).queue.pending = [] ∧
      Bindings.binds (({} : Tracker).recordEvents (pushed renamedAndModified)).pending
        (⟨⟨"/a"⟩, none⟩ : ChangedUnit).key = true ∧
      ((start ⟨100, 100, true⟩).run (renamedAndModified ++ [.snapshot])).gathered
        (⟨⟨"/a"⟩, none⟩ : ChangedUnit).key = false := by
  decide +kernel

end Gathering

end ScopedState.Feed
