/-
`Proofs/Session/Reports.lean` -- what the calls on a tree report.

Staging reports a failure and, apart from it, the units that have to be written
and cannot be. A scope looks at its units in order and ends at the first one
with a component that does not give its state, so it reports the read-only ones
among the units before that one, and all of them when every component gives its
state. A tree is staged from the scope to its children. So its report goes
through the parts in that order (`stagingOrder`), which is not the one in which
they are finished.

Staged writes are listed by their units, those of the scope and of all below it.

The kinds of failures tell the calls apart: staging fails with a staging
failure, finishing with one of a write or of a child, and resetting does not
fail. None of them is the refusal of a call, as long as the tree has not ended.
-/
import Mathlib.Data.List.TakeWhile
import ScopedState.Proofs.Session.Calls
set_option autoImplicit false

namespace ScopedState

variable {β δ : Type} [Backing β] [DecidableEq δ] [Digest δ]

/-! ## 1. One scope -/

namespace ScopeSession

variable {macros : Option MacroTable} {v : Vault β δ} {slots : List Slot} {s : ScopeSession δ}
  {e : Failure}

/-- The writes that are due for a scope and for units that cannot be written. -/
def blocked (s : ScopeSession δ) (v : Vault β δ) : List (StagedWrite δ) :=
  (s.wanted v).filter fun w => !writable v w

/-- Those that are met before the first component that does not give its
state. -/
def met (s : ScopeSession δ) (v : Vault β δ) : List (StagedWrite δ) :=
  ((s.layout.takeWhile (tells s.macros v)).filterMap (slotWrite s.macros v)).filter
    fun w => !writable v w

/-- **Staging unit after unit** reports the read-only ones among the units before
the first with a component that does not give its state. -/
theorem stageAll_readOnly (name : String) (macros : Option MacroTable) (v : Vault β δ)
    (slots : List Slot) :
    (stageAll name macros v slots).readOnly
      = (((slots.takeWhile (tells macros v)).filterMap (slotWrite macros v)).filter
          fun w => !writable v w).map fun w => ⟨name, w.unit⟩ := by
  induction slots with
  | nil => rfl
  | cons slot rest ih =>
    rw [stageAll]
    by_cases htells : tells macros v slot = true
    · rw [stageSlot_of_tells htells, List.takeWhile_cons_of_pos htells, List.filterMap_cons]
      cases slotWrite macros v slot with
      | none => exact ih
      | some write =>
        have hwritable : Backing.isWritable v.backing write.unit = writable v write := rfl
        by_cases hok : writable v write = true
        · simp [hwritable, hok, ih]
        · simp [hwritable, hok, ih]
    · -- The staging ends here, and nothing behind is looked at.
      obtain ⟨e, he⟩ := stageSlot_of_not_tells (Bool.not_eq_true _ ▸ htells)
      rw [he, List.takeWhile_cons_of_neg htells]
      rfl

/-- **What staging a scope reports** as read-only. -/
theorem save_readOnly (h : s.phase.isTerminal = false) (v : Vault β δ) :
    (s.save v).readOnly = (s.met v).map fun w => ⟨s.name, w.unit⟩ := by
  rw [save, SessionTree.checkPhase_of_not_terminal h]
  simp only []
  split
  · exact stageAll_readOnly s.name s.macros v s.layout
  · exact stageAll_readOnly s.name s.macros v s.layout

/-- What is reported is a part, from the front, of what is blocked. -/
theorem met_prefix_blocked (s : ScopeSession δ) (v : Vault β δ) : s.met v <+: s.blocked v :=
  ((List.takeWhile_prefix _).filterMap _).filter _

/-- It is all of it when every component gives its state. -/
theorem met_eq_blocked (h : s.layout.all (tells s.macros v) = true) : s.met v = s.blocked v := by
  have hall : s.layout.takeWhile (tells s.macros v) = s.layout :=
    List.takeWhile_eq_self_iff.mpr fun slot hslot => List.all_eq_true.mp h slot hslot
  rw [met, hall, blocked, wanted]

omit [Backing β] [DecidableEq δ] [Digest δ] in
/-- Components that do not fail give their states. -/
theorem tells_of_components {slot : Slot}
    (h : ∀ c ∈ slot.components, ∀ x, v.component? c.2 = some x → x.failing = false) :
    tells macros v slot = true := by
  have hcollect : ∀ cs : List (String × ComponentId),
      (∀ c ∈ cs, ∀ x, v.component? c.2 = some x → x.failing = false) →
        ∃ states, collect macros v cs = .ok states := by
    intro cs
    induction cs with
    | nil => exact fun _ => ⟨[], rfl⟩
    | cons c rest ih =>
      intro hcs
      obtain ⟨name, id⟩ := c
      obtain ⟨states, hstates⟩ := ih fun c hc => hcs c (List.mem_cons_of_mem _ hc)
      rw [collect, hstates]
      cases hx : v.component? id with
      | none => exact ⟨_, rfl⟩
      | some x =>
        have hnot := hcs (name, id) List.mem_cons_self x hx
        rw [Option.elim_some, Component.state, hnot]
        exact ⟨_, rfl⟩
  obtain ⟨states, hstates⟩ := hcollect slot.components h
  rw [tells, hstates]
  rfl

/-- **Staging a scope** fails with a staging failure. -/
theorem save_failure (h : s.phase.isTerminal = false) (he : (s.save v).outcome = .error e) :
    ∃ reason, e = .staging s.name reason := by
  rw [save, SessionTree.checkPhase_of_not_terminal h] at he
  simp only [] at he
  cases htells : s.layout.all (tells s.macros v) with
  | true =>
    simp only [stageAll_of_tells s.name htells] at he
    cases he
  | false =>
    obtain ⟨reason, hwrites⟩ := stageAll_of_not_tells s.name htells
    simp only [hwrites] at he
    exact ⟨reason, (Except.error.inj he).symm⟩

/-- **Carrying out writes** fails with the failure of a write. -/
theorem carryOutAll_failure {name : String} {ws : List (StagedWrite δ)} {v : Vault β δ}
    (he : (carryOutAll name ws v).1 = .error e) : ∃ unit reason, e = .commit name unit reason := by
  induction ws generalizing v with
  | nil => cases he
  | cons w ws ih =>
    rw [carryOutAll] at he
    cases houtcome : (v.carryOut w).1 with
    | ok u =>
      simp only [houtcome] at he
      exact ih he
    | error reason =>
      simp only [houtcome] at he
      exact ⟨w.unit, reason, (Except.error.inj he).symm⟩

end ScopeSession

/-! ## 2. A tree -/

namespace SessionTree

section Order

variable {α : Type}

mutual

/-- **The participants of a tree as they are staged**: that of the scope before
those of the children. -/
def stagingOrder : SessionTree α → List α
  | .single part => [part]
  | .group _ own members => own.stagingOrder ++ stagingOrderAll members

/-- The participants of some trees as they are staged. -/
def stagingOrderAll : List (SessionTree α) → List α
  | [] => []
  | t :: ts => t.stagingOrder ++ stagingOrderAll ts

end

mutual

/-- Staging and finishing go through the same participants. -/
theorem stagingOrder_perm : ∀ t : SessionTree α, t.stagingOrder.Perm t.parts
  | .single part => by
    rw [stagingOrder, parts]
  | .group phase own members => by
    rw [stagingOrder, parts]
    exact ((stagingOrder_perm own).append (stagingOrderAll_perm members)).trans
      List.perm_append_comm

theorem stagingOrderAll_perm : ∀ ts : List (SessionTree α), (stagingOrderAll ts).Perm (partsAll ts)
  | [] => List.Perm.refl _
  | t :: ts => by
    rw [stagingOrderAll, partsAll]
    exact (stagingOrder_perm t).append (stagingOrderAll_perm ts)

end

end Order

variable {p : Phase}

mutual

/-- **The read-only units of a tree** are those of its parts, in the order in
which they are staged. -/
theorem save_readOnly (hp : p.isTerminal = false) : ∀ {t : SessionTree (ScopeSession δ)},
    t.Uniform p → ∀ v : Vault β δ,
      (t.save v).readOnly
        = t.stagingOrder.flatMap fun s => (s.met v).map fun w => ⟨s.name, w.unit⟩
  | .single s, h, v => by
    have hopen : s.phase.isTerminal = false := by
      rw [h]
      exact hp
    have hsave : Participant.save s v = s.save v := rfl
    rw [save, hsave, stagingOrder, List.flatMap_singleton]
    exact ScopeSession.save_readOnly hopen v
  | .group phase own members, ⟨hphase, hown, hmembers⟩, v => by
    have hworld := (save_spec hp hown v).1
    rw [save, hphase, checkPhase_of_not_terminal hp, stagingOrder, List.flatMap_append]
    simp only [hworld]
    rw [save_readOnly hp hown v, saveAll_readOnly hp hmembers v]

theorem saveAll_readOnly (hp : p.isTerminal = false) :
    ∀ {ts : List (SessionTree (ScopeSession δ))}, UniformAll p ts → ∀ v : Vault β δ,
      (saveAll ts v).readOnly
        = (stagingOrderAll ts).flatMap fun s => (s.met v).map fun w => ⟨s.name, w.unit⟩
  | [], _, _ => rfl
  | t :: ts, ⟨ht, hts⟩, v => by
    have hworld := (save_spec hp ht v).1
    rw [saveAll, stagingOrderAll, List.flatMap_append]
    simp only [hworld]
    rw [save_readOnly hp ht v, saveAll_readOnly hp hts v]

end

/-- The first of two failures is one of them. -/
theorem firstFailure_eq_error {o o' : Outcome} {e : Failure}
    (h : ScopedState.firstFailure o o' = .error e) : o = .error e ∨ o' = .error e := by
  cases o with
  | ok u => exact Or.inr h
  | error e' => exact Or.inl h

mutual

/-- **Staging a tree** fails with a staging failure. -/
theorem save_failure (hp : p.isTerminal = false) {v : Vault β δ} {e : Failure} :
    ∀ {t : SessionTree (ScopeSession δ)}, t.Uniform p → (t.save v).outcome = .error e →
      ∃ scope reason, e = .staging scope reason
  | .single s, h, he => by
    have hopen : s.phase.isTerminal = false := by
      rw [h]
      exact hp
    have hsave : Participant.save s v = s.save v := rfl
    rw [save, hsave] at he
    exact ⟨s.name, ScopeSession.save_failure hopen he⟩
  | .group phase own members, ⟨hphase, hown, hmembers⟩, he => by
    have hworld := (save_spec hp hown v).1
    rw [save, hphase, checkPhase_of_not_terminal hp] at he
    simp only [hworld] at he
    rcases firstFailure_eq_error he with he | he
    · exact save_failure hp hown he
    · exact saveAll_failure hp hmembers he

theorem saveAll_failure (hp : p.isTerminal = false) {v : Vault β δ} {e : Failure} :
    ∀ {ts : List (SessionTree (ScopeSession δ))}, UniformAll p ts →
      (saveAll ts v).outcome = .error e → ∃ scope reason, e = .staging scope reason
  | [], _, he => by cases he
  | t :: ts, ⟨ht, hts⟩, he => by
    have hworld := (save_spec hp ht v).1
    rw [saveAll] at he
    simp only [hworld] at he
    rcases firstFailure_eq_error he with he | he
    · exact save_failure hp ht he
    · exact saveAll_failure hp hts he

end

/-- **Finishing a tree** fails with the failure of a write, or with that of a
child. -/
theorem finish_failure (hp : p.isTerminal = false) {e : Failure} :
    ∀ {t : SessionTree (ScopeSession δ)}, t.Uniform p → ∀ v : Vault β δ,
      (t.finish v).outcome = .error e →
        (∃ scope unit reason, e = .commit scope unit reason) ∨
          ∃ first suppressed, e = .childSave first suppressed
  | .single s, h, v, he => by
    have hopen : s.phase.isTerminal = false := by
      rw [h]
      exact hp
    have hfinish : Participant.finish s v = s.finish v := rfl
    rw [finish, hfinish, ScopeSession.finish, checkPhase_of_not_terminal hopen] at he
    exact Or.inl ⟨s.name, ScopeSession.carryOutAll_failure he⟩
  | .group phase own members, ⟨hphase, hown, _⟩, v, he => by
    rw [finish, hphase, checkPhase_of_not_terminal hp] at he
    simp only [] at he
    -- Without a failed child it is the scope's own outcome that counts.
    cases hfailures : (finishAll members v).failures with
    | nil =>
      rw [hfailures] at he
      exact finish_failure hp hown _ he
    | cons first rest =>
      rw [hfailures, groupOutcome.eq_def] at he
      split at he
      · exact finish_failure hp hown _ he
      · exact Or.inr ⟨_, _, (Except.error.inj he).symm⟩
      · exact Or.inr ⟨_, _, (Except.error.inj he).symm⟩

/-- **Resetting a tree** does not fail. -/
theorem reset_ok (hp : p.isTerminal = false) : ∀ {t : SessionTree (ScopeSession δ)},
    t.Uniform p → ∀ v : Vault β δ, (t.reset v).outcome = .ok ()
  | .single s, h, v => by
    have hopen : s.phase.isTerminal = false := by
      rw [h]
      exact hp
    have hreset : Participant.reset s v = s.reset v := rfl
    rw [reset, hreset, ScopeSession.reset, checkPhase_of_not_terminal hopen]
  | .group phase own members, ⟨hphase, hown, _⟩, v => by
    rw [reset, hphase, checkPhase_of_not_terminal hp]
    exact reset_ok hp hown _

/-! ## 3. The units of what is staged -/

section Units

variable {α : Type}

mutual

/-- Each group is the session of one scope with those of its children. -/
def Layered : SessionTree α → Prop
  | .single _ => True
  | .group _ own members => (∃ part, own = .single part) ∧ LayeredAll members

/-- `Layered` of some trees. -/
def LayeredAll : List (SessionTree α) → Prop
  | [] => True
  | t :: ts => t.Layered ∧ LayeredAll ts

end

end Units

mutual

/-- Staging leaves the shape of a tree alone. -/
theorem Layered.save : ∀ {t : SessionTree (ScopeSession δ)}, t.Layered → ∀ v : Vault β δ,
    (t.save v).session.Layered
  | .single _, _, _ => trivial
  | .group phase own members, ⟨⟨part, hown⟩, hmembers⟩, v => by
    rw [SessionTree.save]
    split
    · exact ⟨⟨part, hown⟩, hmembers⟩
    · subst hown
      exact ⟨⟨_, rfl⟩, LayeredAll.save hmembers _⟩

theorem LayeredAll.save : ∀ {ts : List (SessionTree (ScopeSession δ))}, LayeredAll ts →
    ∀ v : Vault β δ, LayeredAll (saveAll ts v).session
  | [], _, _ => trivial
  | _ :: _, ⟨ht, hts⟩, _ => ⟨ht.save _, hts.save _⟩

end

/-- A set of paths has the locations of some writes. -/
def Locates (paths : Paths) (parts : List (ScopeSession δ)) : Prop :=
  ∀ l, l ∈ Bindings.keys paths ↔ ∃ s ∈ parts, ∃ write ∈ s.staged, write.unit.location = l

omit [Backing β] [DecidableEq δ] [Digest δ] in
/-- The units of what one scope has staged. -/
theorem locates_filesToSave (s : ScopeSession δ) : Locates s.filesToSave [s] := by
  intro l
  rw [ScopeSession.filesToSave, Paths.ofList, Bindings.mem_keys_ofList]
  simp

mutual

/-- **The units to save** that a tree lists are those of what its parts have staged. -/
theorem locates_filesToSave_tree : ∀ {t : SessionTree (ScopeSession δ)}, t.Layered →
    ∀ v : Vault β δ, Locates (t.filesToSave true v).1 t.parts
  | .single s, _, v => by
    rw [parts]
    exact locates_filesToSave s
  | .group phase own members, ⟨⟨part, hown⟩, hmembers⟩, v => by
    subst hown
    rw [filesToSave, parts, parts]
    exact locates_filesToSaveAll hmembers (locates_filesToSave part) v

/-- Units are added to those that have been found. -/
theorem locates_filesToSaveAll : ∀ {ts : List (SessionTree (ScopeSession δ))}, LayeredAll ts →
    ∀ {found : Paths} {before : List (ScopeSession δ)}, Locates found before →
      ∀ v : Vault β δ, Locates (filesToSaveAll found ts v).1 (partsAll ts ++ before)
  | [], _, _, _, hfound, _ => hfound
  | t :: ts, ⟨ht, hts⟩, found, before, hfound, v => by
    have hboth : Locates (Bindings.union found (t.filesToSave true v).1) (t.parts ++ before) := by
      intro l
      rw [Bindings.mem_keys_union, hfound l, locates_filesToSave_tree ht v l]
      simp only [List.mem_append, or_and_right, exists_or]
      exact or_comm
    intro l
    rw [filesToSaveAll, locates_filesToSaveAll hts hboth _ l, partsAll]
    simp only [List.mem_append]
    exact exists_congr fun s => and_congr_left fun _ => or_left_comm.trans or_assoc.symm

end

mutual

/-- **The units that a tree lists** are those of its parts. -/
theorem mem_keys_files : ∀ {t : SessionTree (ScopeSession δ)}, t.Layered →
    ∀ (v : Vault β δ) (l : Location), l ∈ Bindings.keys (t.files true v).1 ↔
      ∃ s ∈ t.parts, ∃ slot ∈ s.layout, slot.unit.location = l
  | .single s, _, v, l => by
    rw [files, parts]
    show l ∈ Bindings.keys (Paths.ofList (s.layout.map Slot.unit)) ↔ _
    rw [Paths.ofList, Bindings.mem_keys_ofList]
    simp
  | .group phase own members, ⟨⟨part, hown⟩, hmembers⟩, v, l => by
    subst hown
    have hpart := mem_keys_files (t := .single part) trivial v l
    rw [files, parts, parts]
    refine (mem_keys_filesAll hmembers part.files v l).trans ((or_congr_left hpart).trans ?_)
    rw [parts]
    simp only [List.mem_append, or_and_right, exists_or]
    exact or_comm

theorem mem_keys_filesAll : ∀ {ts : List (SessionTree (ScopeSession δ))}, LayeredAll ts →
    ∀ (found : Paths) (v : Vault β δ) (l : Location),
      l ∈ Bindings.keys (filesAll found ts v).1 ↔ l ∈ Bindings.keys found ∨
        ∃ s ∈ partsAll ts, ∃ slot ∈ s.layout, slot.unit.location = l
  | [], _, _, _, _ => by
    rw [filesAll, partsAll]
    simp
  | t :: ts, ⟨ht, hts⟩, found, v, l => by
    rw [filesAll, mem_keys_filesAll hts, Bindings.mem_keys_union, mem_keys_files ht, partsAll,
      or_assoc]
    simp only [List.mem_append, or_and_right, exists_or]

end

/-- **A tree lists no unit to save** exactly if it has nothing to write. -/
theorem filesToSave_eq_nil_iff {t : SessionTree (ScopeSession δ)} (h : t.Layered)
    (v : Vault β δ) : (t.filesToSave true v).1 = [] ↔ t.writes = [] := by
  have hlocates := locates_filesToSave_tree h v
  rw [writes_eq, List.flatMap_eq_nil_iff]
  constructor
  · intro hfiles s hs
    rw [List.map_eq_nil_iff, List.eq_nil_iff_forall_not_mem]
    intro write hwrite
    have hlisted := (hlocates write.unit.location).mpr ⟨s, hs, write, hwrite, rfl⟩
    rw [hfiles] at hlisted
    exact List.not_mem_nil hlisted
  · intro hwrites
    have hkeys : Bindings.keys (t.filesToSave true v).1 = [] := by
      rw [List.eq_nil_iff_forall_not_mem]
      intro l hl
      obtain ⟨s, hs, write, hwrite, _⟩ := (hlocates l).mp hl
      rw [List.map_eq_nil_iff.mp (hwrites s hs)] at hwrite
      exact List.not_mem_nil hwrite
    exact List.map_eq_nil_iff.mp hkeys

end SessionTree

end ScopedState
