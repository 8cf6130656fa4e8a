/-
`Proofs/Session/Calls.lean` -- a call on a tree as calls on its parts.

The sessions of a tree are opened together, and every call takes all of them
from one phase to another: a tree is uniform, and stays so. Hence a call on a
tree of sessions that have not ended reaches every part, and does to each part
what a call on the part alone does; and a call on a tree that has ended reaches
none.

Staging looks at the world and leaves it alone, so every part stages against
the same vault no matter where it stands in the tree. What a part stages is one
write for each of its units, in the order of the units, except for the units
where nothing is due.
-/
import ScopedState.Proofs.Session.Commit
import ScopedState.Proofs.Storage.Coherence
set_option autoImplicit false

namespace ScopedState

open Bindings (Sorted get?)

/-! ## 1. Turns and units -/

namespace Turn

variable {β δ : Type} [Backing β] [DecidableEq δ] [Digest δ]

/-- Carrying out writes keeps every number about its unit. -/
theorem unit?_perform (ws : List (String × StagedWrite δ)) (v : Vault β δ) :
    (perform ws v).unit? = v.unit? := by
  induction ws generalizing v with
  | nil => rfl
  | cons w ws ih => exact (ih _).trans (v.unit?_carryOut w.2)

/-- Writes of other units leave a location alone. -/
theorem contents_perform_other [LawfulBacking β] {ws : List (String × StagedWrite δ)}
    {v : Vault β δ} {l : Location} (h : ∀ w ∈ ws, w.2.unit.location ≠ l) :
    (perform ws v).contents l = v.contents l := by
  induction ws generalizing v with
  | nil => rfl
  | cons w ws ih =>
    refine (ih fun x hx => h x (List.mem_cons_of_mem _ hx)).trans ?_
    exact v.contents_carryOut_other (h w List.mem_cons_self)

/-- Writes for other storages leave a storage alone. -/
theorem storage?_perform_other {ws : List (String × StagedWrite δ)} {v : Vault β δ} {k : StorageId}
    (h : ∀ w ∈ ws, w.2.storage ≠ k) : (perform ws v).storage? k = v.storage? k := by
  induction ws generalizing v with
  | nil => rfl
  | cons w ws ih =>
    have hfirst : (v.carryOut w.2).2.storage? k = v.storage? k := by
      rcases v.carryOut_cases w.2 with
        ⟨_, hout⟩ | ⟨w', backing, hsome, _, hout⟩ | ⟨w', backing, e, _, _, hout⟩
      · rw [hout]
      · obtain ⟨draft, _, rfl⟩ := Vault.rebase_eq_some hsome
        have hother : k ≠ w.2.storage := fun hk => h w List.mem_cons_self hk.symm
        rw [hout, Vault.commit, Vault.storage?_remember, if_neg hother]
        rfl
      · rw [hout]
        rfl
    exact (ih fun x hx => h x (List.mem_cons_of_mem _ hx)).trans hfirst

/-- **Carrying out writes keeps storages coherent.** -/
theorem coherentOn_perform [LawfulBacking β] {used : StorageId → Prop}
    {ws : List (String × StagedWrite δ)} {v : Vault β δ} (h : v.CoherentOn used)
    (hws : ∀ w ∈ ws, w.2.Fits v ∧ used w.2.storage) : (perform ws v).CoherentOn used := by
  induction ws generalizing v with
  | nil => exact h
  | cons w ws ih =>
    obtain ⟨hfits, hused⟩ := hws w List.mem_cons_self
    refine ih (h.carryOut hfits hused) fun x hx => ?_
    obtain ⟨hfits', hused'⟩ := hws x (List.mem_cons_of_mem _ hx)
    exact ⟨hfits'.of_keeps (Vault.Keeps.of_eq (v.unit?_carryOut w.2)), hused'⟩

end Turn

/-! ## 2. What one scope stages -/

namespace ScopeSession

variable {β δ : Type} [Backing β] [DecidableEq δ] [Digest δ] {macros : Option MacroTable}
  {v : Vault β δ} {slots : List Slot}

/-- Whether all components of a unit give their state. -/
def tells (macros : Option MacroTable) (v : Vault β δ) (slot : Slot) : Bool :=
  (collect macros v slot.components).isOk

/-- The write that is due for a unit. -/
def slotWrite (macros : Option MacroTable) (v : Vault β δ) (slot : Slot) :
    Option (StagedWrite δ) :=
  match stageSlot macros v slot with
  | .ok write => write
  | .error _ => none

/-- The writes that are due for a scope, in the order of its units. -/
def wanted (s : ScopeSession δ) (v : Vault β δ) : List (StagedWrite δ) :=
  s.layout.filterMap (slotWrite s.macros v)

/-- Whether a write is for a unit that can be written. -/
def writable (v : Vault β δ) (w : StagedWrite δ) : Bool := Backing.isWritable v.backing w.unit

/-- The writes that a scope stages: those that are due and for units that can be
written, and none at all if some component does not give its state. -/
def due (s : ScopeSession δ) (v : Vault β δ) : List (StagedWrite δ) :=
  if s.layout.all (tells s.macros v) then (s.wanted v).filter (writable v) else []

omit [Backing β] in
theorem stageSlot_of_tells {slot : Slot} (h : tells macros v slot = true) :
    stageSlot macros v slot = .ok (slotWrite macros v slot) := by
  unfold tells at h
  unfold slotWrite stageSlot
  cases hcollect : collect macros v slot.components with
  | error e =>
    rw [hcollect] at h
    cases h
  | ok states => rfl

omit [Backing β] in
theorem stageSlot_of_not_tells {slot : Slot} (h : tells macros v slot = false) :
    ∃ e, stageSlot macros v slot = .error e := by
  unfold tells at h
  unfold stageSlot
  cases hcollect : collect macros v slot.components with
  | error e => exact ⟨e, rfl⟩
  | ok states =>
    rw [hcollect] at h
    cases h

omit [Backing β] [DecidableEq δ] [Digest δ] in
/-- The states that are collected stand in the order of the names. -/
theorem sorted_collect {cs : List (String × ComponentId)} {states : States}
    (h : collect macros v cs = .ok states) : Sorted states := by
  induction cs generalizing states with
  | nil =>
    rw [← Except.ok.inj h]
    exact Bindings.sorted_nil
  | cons c rest ih =>
    rw [collect] at h
    split at h
    · cases h
    · split at h
      · cases h
      · rename_i others hothers
        rw [← Except.ok.inj h]
        exact (ih hothers).insert _ _

omit [Backing β] [DecidableEq δ] [Digest δ] in
/-- **What is collected** is the state of each component, as it is stored. -/
theorem collect_eq {cs : Bindings String ComponentId} (hcs : Sorted cs) {states : States}
    (h : collect macros v cs = .ok states) :
    states = cs.map fun c =>
      (c.1, ((v.component? c.2).bind Component.value).map (Substitutor.collapseWith macros)) := by
  -- Both sides ascend, so they are compared name by name.
  refine (sorted_collect h).ext (hcs.mapValues fun c =>
    ((v.component? c.2).bind Component.value).map (Substitutor.collapseWith macros)) fun n => ?_
  induction cs generalizing states with
  | nil =>
    rw [← Except.ok.inj h]
    rfl
  | cons c rest ih =>
    obtain ⟨name, id⟩ := c
    rw [collect] at h
    split at h
    · cases h
    · rename_i state hstate
      split at h
      · cases h
      · rename_i others hothers
        -- A component that is gone has no state, like one without a value.
        have hvalue : state = (v.component? id).bind Component.value := by
          cases hc : v.component? id with
          | none =>
            rw [hc] at hstate
            exact (Except.ok.inj hstate).symm
          | some c =>
            rw [hc, Option.elim_some, Component.state] at hstate
            split at hstate
            · cases hstate
            · exact (Except.ok.inj hstate).symm
        rw [← Except.ok.inj h, Bindings.get?_insert, List.map_cons, get?, hvalue]
        split
        · rfl
        · exact ih hcs.tail hothers

omit [Backing β] in
/-- A write that is due for a unit is one for its storage. -/
theorem slotWrite_eq_some {slot : Slot} {w : StagedWrite δ}
    (h : slotWrite macros v slot = some w) :
    ∃ states, collect macros v slot.components = .ok states ∧
      v.stage slot.storage states = some w := by
  unfold slotWrite stageSlot at h
  cases hcollect : collect macros v slot.components with
  | error e =>
    rw [hcollect] at h
    cases h
  | ok states =>
    rw [hcollect] at h
    exact ⟨states, rfl, h⟩

/-- **What a scope stages** comes out of staging the states in one of its units. -/
theorem exists_stage_of_due {s : ScopeSession δ} {write : StagedWrite δ} (h : write ∈ s.due v) :
    ∃ slot ∈ s.layout, ∃ states, collect s.macros v slot.components = .ok states ∧
      v.stage slot.storage states = some write := by
  unfold due at h
  split at h
  · obtain ⟨slot, hslot, hslotWrite⟩ := List.mem_filterMap.mp (List.mem_filter.mp h).1
    exact ⟨slot, hslot, slotWrite_eq_some hslotWrite⟩
  · cases h

/-- It is for the storage of that unit. -/
theorem storage_of_due {s : ScopeSession δ} {write : StagedWrite δ} (h : write ∈ s.due v) :
    ∃ slot ∈ s.layout, slot.storage = write.storage := by
  obtain ⟨slot, hslot, states, _, hstage⟩ := exists_stage_of_due h
  exact ⟨slot, hslot, (Vault.unit?_of_stage hstage).1.symm⟩

/-- It is to be written where that storage is. -/
theorem unit?_of_due {s : ScopeSession δ} {write : StagedWrite δ} (h : write ∈ s.due v) :
    v.unit? write.storage = some write.unit := by
  obtain ⟨slot, _, states, _, hstage⟩ := exists_stage_of_due h
  obtain ⟨hstorage, hunit⟩ := Vault.unit?_of_stage hstage
  rw [hstorage]
  exact hunit

/-- **What a scope stages fits**, if its storages are coherent. -/
theorem fits_of_due [LawfulBacking β] {used : StorageId → Prop} {s : ScopeSession δ}
    (h : v.CoherentOn used) (hlayout : ∀ slot ∈ s.layout, used slot.storage) :
    ∀ write ∈ s.due v, write.Fits v := by
  intro write hwrite
  obtain ⟨slot, hslot, states, hcollect, hstage⟩ := exists_stage_of_due hwrite
  exact (h.fits_of_stage (hlayout slot hslot) (sorted_collect hcollect) hstage).2

/-- **Staging unit after unit** tells the writes that are due apart by whether
their units can be written. -/
theorem stageAll_of_tells (name : String) (h : slots.all (tells macros v) = true) :
    stageAll name macros v slots
      = ⟨.ok ((slots.filterMap (slotWrite macros v)).filter (writable v)),
          ((slots.filterMap (slotWrite macros v)).filter fun w => !writable v w).map
            fun w => ⟨name, w.unit⟩⟩ := by
  induction slots with
  | nil => rfl
  | cons slot rest ih =>
    rw [List.all_cons, Bool.and_eq_true] at h
    obtain ⟨htells, hrest⟩ := h
    rw [stageAll, List.filterMap_cons, stageSlot_of_tells htells, ih hrest]
    cases slotWrite macros v slot with
    | none => rfl
    | some write =>
      -- The write goes to the staged ones or to the read-only ones.
      have hwritable : Backing.isWritable v.backing write.unit = writable v write := rfl
      simp only [hwritable, List.filter_cons]
      cases writable v write <;> rfl

/-- A component that does not give its state ends the staging. -/
theorem stageAll_of_not_tells (name : String) (h : slots.all (tells macros v) = false) :
    ∃ e, (stageAll name macros v slots).writes = .error (.staging name e) := by
  induction slots with
  | nil => cases h
  | cons slot rest ih =>
    rw [stageAll]
    cases htells : tells macros v slot with
    | false =>
      obtain ⟨e, he⟩ := stageSlot_of_not_tells htells
      exact ⟨e, by rw [he]⟩
    | true =>
      -- What this unit stages does not matter: the failure comes later, and drops it.
      rw [List.all_cons, htells, Bool.true_and] at h
      obtain ⟨e, he⟩ := ih h
      rw [stageSlot_of_tells htells]
      cases slotWrite macros v slot with
      | none => exact ⟨e, he⟩
      | some write =>
        refine ⟨e, ?_⟩
        simp only []
        split
        · rw [he]
          rfl
        · exact he

/-- **What staging makes of a scope's session.** -/
theorem save_of_open {s : ScopeSession δ} (h : s.phase.isTerminal = false) (v : Vault β δ) :
    (s.save v).session = { s with phase := .collecting, staged := s.due v } ∧ (s.save v).world = v ∧
      ((s.save v).outcome = .ok () ↔ s.layout.all (tells s.macros v) = true) ∧
      (s.layout.all (tells s.macros v) = true →
        (s.save v).readOnly
          = ((s.wanted v).filter fun w => !writable v w).map fun w => ⟨s.name, w.unit⟩) := by
  rw [save, SessionTree.checkPhase_of_not_terminal h]
  cases htells : s.layout.all (tells s.macros v) with
  | true =>
    simp only [stageAll_of_tells s.name htells]
    refine ⟨?_, trivial, trivial, fun _ => rfl⟩
    rw [due, if_pos htells]
    rfl
  | false =>
    obtain ⟨e, he⟩ := stageAll_of_not_tells s.name htells
    simp only [he]
    refine ⟨?_, trivial, ?_, fun h => Bool.noConfusion h⟩
    · rw [due, htells]
      rfl
    · constructor
      · intro h
        cases h
      · intro h
        cases h

/-- Where all components tell and no unit is read-only, everything that is due
is staged. -/
theorem due_eq_wanted {s : ScopeSession δ} (h : s.phase.isTerminal = false)
    (hok : (s.save v).outcome = .ok ()) (hreadOnly : (s.save v).readOnly = []) :
    s.due v = s.wanted v := by
  obtain ⟨_, _, houtcome, htargets⟩ := save_of_open h v
  have htells := houtcome.mp hok
  -- No unit is reported as read-only, so every write that is wanted can be made.
  rw [htargets htells, List.map_eq_nil_iff, List.filter_eq_nil_iff] at hreadOnly
  rw [due, if_pos htells, List.filter_eq_self]
  intro w hw
  have hwritable := hreadOnly w hw
  simpa using hwritable

end ScopeSession

/-! ## 3. Trees in one phase -/

namespace SessionTree

section Parts

variable {α : Type}

mutual

/-- The participants of a tree, those of the children before that of the
scope. -/
def parts : SessionTree α → List α
  | .single part => [part]
  | .group _ own members => partsAll members ++ own.parts

/-- The participants of some trees. -/
def partsAll : List (SessionTree α) → List α
  | [] => []
  | t :: ts => t.parts ++ partsAll ts

end

end Parts

variable {β δ : Type} {p : Phase}

mutual

/-- Whether all of a tree is in one phase. -/
def Uniform (p : Phase) : SessionTree (ScopeSession δ) → Prop
  | .single s => s.phase = p
  | .group phase own members => phase = p ∧ own.Uniform p ∧ UniformAll p members

/-- Whether all of some trees is in one phase. -/
def UniformAll (p : Phase) : List (SessionTree (ScopeSession δ)) → Prop
  | [] => True
  | t :: ts => t.Uniform p ∧ UniformAll p ts

end

mutual

/-- The staged writes of a tree are those of its parts. -/
theorem writes_eq : ∀ t : SessionTree (ScopeSession δ),
    t.writes = t.parts.flatMap fun s => s.staged.map fun w => (s.name, w)
  | .single s => by
    rw [writes, parts, List.flatMap_singleton]
  | .group phase own members => by
    rw [writes, parts, List.flatMap_append, writes_eq own, writesAll_eq members]

theorem writesAll_eq : ∀ ts : List (SessionTree (ScopeSession δ)),
    writesAll ts = (partsAll ts).flatMap fun s => s.staged.map fun w => (s.name, w)
  | [] => rfl
  | t :: ts => by
    rw [writesAll, partsAll, List.flatMap_append, writes_eq t, writesAll_eq ts]

end

mutual

/-- A tree that is in a phase that has not ended is ready. -/
theorem Uniform.ready (hp : p.isTerminal = false) : ∀ {t : SessionTree (ScopeSession δ)},
    t.Uniform p → t.Ready
  | .single s, h => by
    rw [Ready, h]
    exact hp
  | .group phase own members, ⟨hphase, hown, hmembers⟩ => by
    rw [Ready, hphase]
    exact ⟨hp, hown.ready hp, UniformAll.ready hp hmembers⟩

theorem UniformAll.ready (hp : p.isTerminal = false) :
    ∀ {ts : List (SessionTree (ScopeSession δ))}, UniformAll p ts → ReadyAll ts
  | [], _ => trivial
  | _ :: _, ⟨ht, hts⟩ => ⟨ht.ready hp, UniformAll.ready hp hts⟩

end

mutual

/-- Every part of a tree is in the phase of the tree. -/
theorem Uniform.phase_part : ∀ {t : SessionTree (ScopeSession δ)}, t.Uniform p →
    ∀ s ∈ t.parts, s.phase = p
  | .single s, h, s', hs' => by
    rw [List.mem_singleton.mp hs']
    exact h
  | .group phase own members, ⟨_, hown, hmembers⟩, s, hs => by
    rcases List.mem_append.mp hs with hs | hs
    · exact UniformAll.phase_part hmembers s hs
    · exact hown.phase_part s hs

theorem UniformAll.phase_part : ∀ {ts : List (SessionTree (ScopeSession δ))}, UniformAll p ts →
    ∀ s ∈ partsAll ts, s.phase = p
  | [], _, s, hs => absurd hs List.not_mem_nil
  | t :: ts, ⟨ht, hts⟩, s, hs => by
    rcases List.mem_append.mp hs with hs | hs
    · exact ht.phase_part s hs
    · exact UniformAll.phase_part hts s hs

end

/-! ## 4. Calls on trees -/

variable [Backing β] [DecidableEq δ] [Digest δ]

theorem firstFailure_eq_ok_iff (o o' : Outcome) :
    ScopedState.firstFailure o o' = .ok () ↔ o = .ok () ∧ o' = .ok () := by
  cases o with
  | ok u => exact ⟨fun h => ⟨rfl, h⟩, fun h => h.2⟩
  | error e =>
    constructor
    · intro h
      cases h
    · rintro ⟨h, _⟩
      cases h

mutual

/-- **Staging a tree** stages every part of it, all on the same vault. -/
theorem save_spec (hp : p.isTerminal = false) : ∀ {t : SessionTree (ScopeSession δ)},
    t.Uniform p → ∀ v : Vault β δ,
      (t.save v).world = v ∧ (t.save v).session.Uniform .collecting ∧
        (t.save v).session.parts = t.parts.map (fun s => (s.save v).session) ∧
        ((t.save v).outcome = .ok () ↔ ∀ s ∈ t.parts, (s.save v).outcome = .ok ()) ∧
        ((t.save v).readOnly = [] ↔ ∀ s ∈ t.parts, (s.save v).readOnly = [])
  | .single s, h, v => by
    have hopen : s.phase.isTerminal = false := by
      rw [h]
      exact hp
    have hsave : Participant.save s v = s.save v := rfl
    obtain ⟨hsession, hworld, _, _⟩ := ScopeSession.save_of_open hopen v
    have hparts : (single s).parts = [s] := by rw [parts]
    rw [save, hsave, hparts]
    refine ⟨hworld, ?_, ?_, ?_, ?_⟩
    · rw [Uniform, hsession]
    · rw [parts, List.map_singleton]
    · simp only [List.mem_singleton, forall_eq]
    · simp only [List.mem_singleton, forall_eq]
  | .group phase own members, ⟨hphase, hown, hmembers⟩, v => by
    -- The scope is staged before its children, but its part stands behind theirs.
    obtain ⟨hworld, huniform, hparts, houtcome, hreadOnly⟩ := save_spec hp hown v
    obtain ⟨hworld', huniform', hparts', houtcome', hreadOnly'⟩ := saveAll_spec hp hmembers v
    rw [save, hphase, checkPhase_of_not_terminal hp]
    simp only [hworld]
    refine ⟨hworld', ⟨rfl, huniform, huniform'⟩, ?_, ?_, ?_⟩
    · rw [parts, parts, List.map_append, hparts, hparts']
    · rw [firstFailure_eq_ok_iff, houtcome, houtcome', parts, List.forall_mem_append, and_comm]
    · rw [List.append_eq_nil_iff, hreadOnly, hreadOnly', parts, List.forall_mem_append, and_comm]

theorem saveAll_spec (hp : p.isTerminal = false) : ∀ {ts : List (SessionTree (ScopeSession δ))},
    UniformAll p ts → ∀ v : Vault β δ,
      (saveAll ts v).world = v ∧ UniformAll .collecting (saveAll ts v).session ∧
        partsAll (saveAll ts v).session = (partsAll ts).map (fun s => (s.save v).session) ∧
        ((saveAll ts v).outcome = .ok () ↔ ∀ s ∈ partsAll ts, (s.save v).outcome = .ok ()) ∧
        ((saveAll ts v).readOnly = [] ↔ ∀ s ∈ partsAll ts, (s.save v).readOnly = [])
  | [], _, v => by
    refine ⟨rfl, trivial, rfl, ?_, ?_⟩
    · exact ⟨fun _ s hs => absurd hs List.not_mem_nil, fun _ => rfl⟩
    · exact ⟨fun _ s hs => absurd hs List.not_mem_nil, fun _ => rfl⟩
  | t :: ts, ⟨ht, hts⟩, v => by
    obtain ⟨hworld, huniform, hparts, houtcome, hreadOnly⟩ := save_spec hp ht v
    obtain ⟨hworld', huniform', hparts', houtcome', hreadOnly'⟩ := saveAll_spec hp hts v
    rw [saveAll]
    simp only [hworld]
    refine ⟨hworld', ⟨huniform, huniform'⟩, ?_, ?_, ?_⟩
    · rw [partsAll, partsAll, List.map_append, hparts, hparts']
    · rw [firstFailure_eq_ok_iff, houtcome, houtcome', partsAll, List.forall_mem_append]
    · rw [List.append_eq_nil_iff, hreadOnly, hreadOnly', partsAll, List.forall_mem_append]

end

/-- A scope's session that has ended in some phase. -/
def endedIn (p : Phase) (s : ScopeSession δ) : ScopeSession δ := { s with phase := p, staged := [] }

mutual

/-- **Finishing a tree** ends every part of it. -/
theorem finish_session (hp : p.isTerminal = false) : ∀ {t : SessionTree (ScopeSession δ)},
    t.Uniform p → ∀ v : Vault β δ,
      (t.finish v).session.Uniform .finished ∧
        (t.finish v).session.parts = t.parts.map (endedIn .finished)
  | .single s, h, v => by
    have hopen : s.phase.isTerminal = false := by
      rw [h]
      exact hp
    have hfinish : Participant.finish s v = s.finish v := rfl
    rw [finish, hfinish, ScopeSession.finish, checkPhase_of_not_terminal hopen]
    refine ⟨?_, ?_⟩
    · rw [Uniform]
    · rw [parts, parts, List.map_singleton]
      rfl
  | .group phase own members, ⟨hphase, hown, hmembers⟩, v => by
    obtain ⟨huniform, hparts⟩ := finishAll_session hp hmembers v
    obtain ⟨huniform', hparts'⟩ := finish_session hp hown (finishAll members v).world
    rw [finish, hphase, checkPhase_of_not_terminal hp]
    refine ⟨⟨rfl, huniform', huniform⟩, ?_⟩
    rw [parts, parts, List.map_append, hparts, hparts']

theorem finishAll_session (hp : p.isTerminal = false) :
    ∀ {ts : List (SessionTree (ScopeSession δ))}, UniformAll p ts → ∀ v : Vault β δ,
      UniformAll .finished (finishAll ts v).sessions ∧
        partsAll (finishAll ts v).sessions = (partsAll ts).map (endedIn .finished)
  | [], _, _ => ⟨trivial, rfl⟩
  | t :: ts, ⟨ht, hts⟩, v => by
    obtain ⟨huniform, hparts⟩ := finish_session hp ht v
    obtain ⟨huniform', hparts'⟩ := finishAll_session hp hts (t.finish v).world
    rw [finishAll]
    refine ⟨⟨huniform, huniform'⟩, ?_⟩
    rw [partsAll, partsAll, List.map_append, hparts, hparts']

end

mutual

/-- **Resetting a tree** ends every part of it and writes nothing. -/
theorem reset_spec (hp : p.isTerminal = false) : ∀ {t : SessionTree (ScopeSession δ)},
    t.Uniform p → ∀ v : Vault β δ,
      (t.reset v).world = v ∧ (t.reset v).session.Uniform .reset ∧
        (t.reset v).session.parts = t.parts.map (endedIn .reset)
  | .single s, h, v => by
    have hopen : s.phase.isTerminal = false := by
      rw [h]
      exact hp
    have hreset : Participant.reset s v = s.reset v := rfl
    rw [reset, hreset, ScopeSession.reset, checkPhase_of_not_terminal hopen]
    refine ⟨rfl, ?_, ?_⟩
    · rw [Uniform]
    · rw [parts, parts, List.map_singleton]
      rfl
  | .group phase own members, ⟨hphase, hown, hmembers⟩, v => by
    obtain ⟨hworld, huniform, hparts⟩ := resetAll_spec hp hmembers v
    obtain ⟨hworld', huniform', hparts'⟩ := reset_spec hp hown v
    rw [reset, hphase, checkPhase_of_not_terminal hp]
    simp only [hworld]
    refine ⟨hworld', ⟨rfl, huniform', huniform⟩, ?_⟩
    rw [parts, parts, List.map_append, hparts, hparts']

theorem resetAll_spec (hp : p.isTerminal = false) :
    ∀ {ts : List (SessionTree (ScopeSession δ))}, UniformAll p ts → ∀ v : Vault β δ,
      (resetAll ts v).2 = v ∧ UniformAll .reset (resetAll ts v).1 ∧
        partsAll (resetAll ts v).1 = (partsAll ts).map (endedIn .reset)
  | [], _, _ => ⟨rfl, trivial, rfl⟩
  | t :: ts, ⟨ht, hts⟩, v => by
    obtain ⟨hworld, huniform, hparts⟩ := reset_spec hp ht v
    obtain ⟨hworld', huniform', hparts'⟩ := resetAll_spec hp hts v
    rw [resetAll]
    simp only [hworld]
    refine ⟨hworld', ⟨huniform, huniform'⟩, ?_⟩
    rw [partsAll, partsAll, List.map_append, hparts, hparts']

end

omit [Backing β] [DecidableEq δ] [Digest δ] in
theorem checkPhase_of_terminal {phase : Phase} (h : phase.isTerminal = true) (operation : String) :
    checkPhase phase operation = .error (.invalidPhase phase operation) := by
  rw [checkPhase, h]
  rfl

/-- **A tree that has ended takes no more calls.** -/
theorem calls_of_ended (hp : p.isTerminal = true) {t : SessionTree (ScopeSession δ)}
    (h : t.Uniform p) (v : Vault β δ) :
    t.save v = ⟨.error (.invalidPhase p "save"), [], t, v⟩ ∧
      t.finish v = ⟨.error (.invalidPhase p "finish"), t, v⟩ ∧
      t.reset v = ⟨.error (.invalidPhase p "reset"), t, v⟩ := by
  cases t with
  | single s =>
    have hsave : Participant.save s v = s.save v := rfl
    have hfinish : Participant.finish s v = s.finish v := rfl
    have hreset : Participant.reset s v = s.reset v := rfl
    have hphase : s.phase = p := h
    refine ⟨?_, ?_, ?_⟩
    · rw [save, hsave, ScopeSession.save, hphase, checkPhase_of_terminal hp]
    · rw [finish, hfinish, ScopeSession.finish, hphase, checkPhase_of_terminal hp]
    · rw [reset, hreset, ScopeSession.reset, hphase, checkPhase_of_terminal hp]
  | group phase own members =>
    obtain ⟨rfl, _, _⟩ := h
    refine ⟨?_, ?_, ?_⟩
    · rw [save, checkPhase_of_terminal hp]
    · rw [finish, checkPhase_of_terminal hp]
    · rw [reset, checkPhase_of_terminal hp]

/-- **What every call keeps of the parts of a tree**: whatever is kept by staging the
writes that are due, and by ending. -/
theorem forall_parts_of_calls {P : ScopeSession δ → Prop} {t : SessionTree (ScopeSession δ)}
    (h : t.Uniform p) (v : Vault β δ) (ht : ∀ s ∈ t.parts, P s)
    (hstaged : ∀ s, P s → P { s with phase := .collecting, staged := s.due v })
    (hended : ∀ q s, P s → P (endedIn q s)) :
    (∀ s ∈ (t.save v).session.parts, P s) ∧ (∀ s ∈ (t.finish v).session.parts, P s) ∧
      ∀ s ∈ (t.reset v).session.parts, P s := by
  cases hp : p.isTerminal with
  | true =>
    obtain ⟨hsave, hfinish, hreset⟩ := calls_of_ended hp h v
    rw [hsave, hfinish, hreset]
    exact ⟨ht, ht, ht⟩
  | false =>
    obtain ⟨_, _, hsaved, _, _⟩ := save_spec hp h v
    obtain ⟨_, hfinished⟩ := finish_session hp h v
    obtain ⟨_, _, hreset⟩ := reset_spec hp h v
    rw [hsaved, hfinished, hreset]
    refine ⟨List.forall_mem_map.mpr fun s hs => ?_,
      List.forall_mem_map.mpr fun s hs => hended _ s (ht s hs),
      List.forall_mem_map.mpr fun s hs => hended _ s (ht s hs)⟩
    have hopen : s.phase.isTerminal = false := by
      rw [h.phase_part s hs]
      exact hp
    rw [(ScopeSession.save_of_open hopen v).1]
    exact hstaged s (ht s hs)

end SessionTree

end ScopedState
