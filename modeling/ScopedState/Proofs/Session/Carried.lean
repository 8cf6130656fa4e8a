/-
`Proofs/Session/Carried.lean` -- sessions on a store that stands for another one.

A store is used through its calls, and only for the units of storages. So if one store
stands for another one at these units (`Backing.StandsFor`), it makes no difference which
of the two is there: a step on a storage, and a call on a session, has the same outcome
on both, and leaves vaults that are the same but for the store (`Vault.along`).

A storage is asked for under its own unit, and so is a write when it is staged. When it is
carried out that is not so clear. The write has the unit that it was staged with, and the
storage is not looked at any more. So it is said of the session that its staged writes are
for units of the right kind (`StagedWithin`).
-/
import ScopedState.Proofs.Session.Calls
set_option autoImplicit false

namespace ScopedState

variable {β γ δ : Type} {f : β → γ} {P : Path → Prop}

/-! ## 1. Vaults -/

namespace Vault

/-- A vault, with what its store stands for in the place of the store. -/
def along (f : β → γ) (v : Vault β δ) : Vault γ δ :=
  { backing := f v.backing, storages := v.storages, components := v.components }

/-- The units of all storages are of some kind. -/
def Within (P : Path → Prop) (v : Vault β δ) : Prop := ∀ k u, v.unit? k = some u → P u

@[simp] theorem along_backing (v : Vault β δ) : (v.along f).backing = f v.backing := rfl

@[simp] theorem along_storage? (v : Vault β δ) : (v.along f).storage? = v.storage? := rfl

@[simp] theorem along_component? (v : Vault β δ) : (v.along f).component? = v.component? := rfl

theorem Within.of_keeps {v v' : Vault β δ} (h : v'.Within P) (hkeeps : v.Keeps v') : v.Within P :=
  fun k u hu => h k u (hkeeps k u hu)

theorem Within.of_unit? {v v' : Vault β δ} (h : v.Within P) (hunit : v'.unit? = v.unit?) :
    v'.Within P := by
  rw [Within, hunit]
  exact h

theorem Within.unit {v : Vault β δ} (h : v.Within P) {k : StorageId} {s : Storage δ}
    (hs : v.storage? k = some s) : P s.unit :=
  h k s.unit (unit?_of_storage? hs)

section Steps

variable [Backing β] [Backing γ] [DecidableEq δ] [Digest δ] (h : Backing.StandsFor f P)

include h

omit [DecidableEq δ] in
/-- **A unit is read** as it is on the other store. -/
theorem readSnapshot_along (v : Vault β δ) {unit : Path} (hunit : P unit) :
    (v.along f).readSnapshot unit = v.readSnapshot unit := by
  rw [readSnapshot, readSnapshot, along_backing, h.read _ _ hunit]

omit [DecidableEq δ] in
/-- A unit that is left out cannot be read. -/
theorem readSnapshot_refused (v : Vault β δ) {unit : Path} (hunit : ¬ P unit) :
    ∃ e, v.readSnapshot unit = .error e := by
  obtain ⟨e, he⟩ := h.refuses v.backing unit hunit
  exact ⟨e, by rw [readSnapshot, he]⟩

omit [DecidableEq δ] in
/-- **Loading** a storage. -/
theorem load_along (v : Vault β δ) (hwithin : v.Within P) (k : StorageId) :
    (v.along f).load k = ((v.load k).1, (v.load k).2.along f) := by
  rw [load, load, along_storage?]
  cases hs : v.storage? k with
  | none => rfl
  | some s =>
    simp only [readSnapshot_along h v (hwithin.unit hs)]
    cases v.readSnapshot s.unit with
    | error e => rfl
    | ok snapshot => rfl

/-- **Carrying out** a write. -/
theorem carryOut_along (v : Vault β δ) {x : StagedWrite δ} (hx : P x.unit) :
    (v.along f).carryOut x = ((v.carryOut x).1, (v.carryOut x).2.along f) := by
  have hrebase : (v.along f).rebase x = v.rebase x := rfl
  rw [carryOut, carryOut, hrebase]
  cases hdue : v.rebase x with
  | none => rfl
  | some y =>
    -- What is due may have been rendered anew, but for the unit that it was staged for.
    rw [← rebase_unit hdue] at hx
    simp only [along_backing, h.write _ _ _ hx]
    cases Backing.write v.backing y.unit y.draft.bytes with
    | mk outcome backing =>
      cases outcome with
      | ok u => rfl
      | error e => rfl

/-- **Comparing** a storage. -/
theorem changed_along (v : Vault β δ) (hwithin : v.Within P) (k : StorageId)
    (known : List String) : (v.along f).changed k known = v.changed k known := by
  rw [changed, changed, along_storage?]
  cases hs : v.storage? k with
  | none => rfl
  | some s => simp only [along_backing, h.read _ _ (hwithin.unit hs)]

end Steps

end Vault

/-! ## 2. Sessions -/

/-- What staging leaves, in another world. -/
def Saved.mapWorld {α σ τ : Type} (g : σ → τ) (out : Saved α σ) : Saved α τ :=
  ⟨out.outcome, out.readOnly, out.session, g out.world⟩

/-- What ending leaves, in another world. -/
def Ended.mapWorld {α σ τ : Type} (g : σ → τ) (out : Ended α σ) : Ended α τ :=
  ⟨out.outcome, out.session, g out.world⟩

/-- What finishing the members leaves, in another world. -/
def SessionTree.Finished.mapWorld {α σ τ : Type} (g : σ → τ) (out : Finished α σ) :
    Finished α τ :=
  ⟨out.failures, out.sessions, g out.world⟩

/-- The staged writes of a session are for units of some kind. -/
def ScopeSession.StagedWithin (P : Path → Prop) (s : ScopeSession δ) : Prop :=
  ∀ write ∈ s.staged, P write.unit

section Sessions

variable [DecidableEq δ] [Digest δ]

namespace ScopeSession

omit [DecidableEq δ] [Digest δ] in
/-- Components are asked for their states. -/
theorem collect_along (f : β → γ) (macros : Option MacroTable) (v : Vault β δ) :
    ∀ cs : List (String × ComponentId), collect macros (v.along f) cs = collect macros v cs
  | [] => rfl
  | (name, id) :: cs => by
    rw [collect, collect, collect_along f macros v cs, Vault.along_component?]

theorem stageSlot_along (f : β → γ) (macros : Option MacroTable) (v : Vault β δ) (slot : Slot) :
    stageSlot macros (v.along f) slot = stageSlot macros v slot := by
  rw [stageSlot, stageSlot, collect_along]
  rfl

variable [Backing β] [Backing γ] (h : Backing.StandsFor f P) {v : Vault β δ}

include h

/-- **Staging** asks the store which units are writable, those of the storages. -/
theorem stageAll_along (name : String) (macros : Option MacroTable) (hwithin : v.Within P) :
    ∀ slots : List Slot, stageAll name macros (v.along f) slots = stageAll name macros v slots
  | [] => rfl
  | slot :: slots => by
    rw [stageAll, stageAll, stageSlot_along, stageAll_along name macros hwithin slots]
    cases hslot : stageSlot macros v slot with
    | error e => rfl
    | ok write =>
      cases write with
      | none => rfl
      | some write =>
        -- A write is staged for the unit of its storage, and only that one is asked about.
        have hdue : slotWrite macros v slot = some write := by rw [slotWrite, hslot]
        obtain ⟨states, _, hstage⟩ := slotWrite_eq_some hdue
        have hunit : P write.unit := hwithin _ _ (Vault.unit?_of_stage hstage).2
        simp only [Vault.along_backing, h.isWritable _ _ hunit]

theorem save_along (s : ScopeSession δ) (hwithin : v.Within P) :
    s.save (v.along f) = (s.save v).mapWorld (Vault.along f) := by
  unfold ScopeSession.save
  simp only [stageAll_along h s.name s.macros hwithin]
  split
  · rfl
  · split <;> rfl

/-- **Staged writes** are carried out under the units that they were staged for. -/
theorem carryOutAll_along (name : String) {writes : List (StagedWrite δ)}
    (hwrites : ∀ write ∈ writes, P write.unit) (v : Vault β δ) :
    carryOutAll name writes (v.along f)
      = ((carryOutAll name writes v).1, (carryOutAll name writes v).2.along f) := by
  induction writes generalizing v with
  | nil => rfl
  | cons write writes ih =>
    obtain ⟨hwrite, hwrites⟩ := List.forall_mem_cons.mp hwrites
    rw [carryOutAll, carryOutAll, Vault.carryOut_along h v hwrite]
    simp only [ih hwrites]

theorem finish_along {s : ScopeSession δ} (hs : s.StagedWithin P) (v : Vault β δ) :
    s.finish (v.along f) = (s.finish v).mapWorld (Vault.along f) := by
  unfold ScopeSession.finish
  simp only [carryOutAll_along h s.name hs]
  split <;> rfl

omit h in
omit [DecidableEq δ] [Digest δ] [Backing β] [Backing γ] in
theorem reset_along (f : β → γ) (s : ScopeSession δ) (v : Vault β δ) :
    s.reset (v.along f) = (s.reset v).mapWorld (Vault.along f) := by
  unfold ScopeSession.reset
  split <;> rfl

/-- **What changes mean** is found by comparing storages. -/
theorem analyze_along (changes : ChangeSet) (s : ScopeSession δ) (hwithin : v.Within P) :
    s.analyze changes (v.along f) = s.analyze changes v := by
  have hall : ∀ (slots : List Slot) (names : List String),
      analyzeAll s.scope changes (v.along f) names slots
        = analyzeAll s.scope changes v names slots := by
    intro slots
    induction slots with
    | nil => exact fun _ => rfl
    | cons slot slots ih =>
      intro names
      rw [analyzeAll, analyzeAll, Vault.changed_along h v hwithin]
      simp only [ih]
  exact hall s.layout []

end ScopeSession

namespace SessionTree

variable [Backing β] [Backing γ]

mutual

/-- Staging changes nothing in the vault. -/
theorem save_world (v : Vault β δ) :
    ∀ t : SessionTree (ScopeSession δ), (t.save v).world = v
  | .single s => by
    rw [save]
    show (s.save v).world = v
    unfold ScopeSession.save
    split
    · rfl
    · simp only []
      split <;> rfl
  | .group _ own members => by
    rw [save]
    split
    · rfl
    · simp only [save_world v own, saveAll_world v members]

theorem saveAll_world (v : Vault β δ) :
    ∀ ts : List (SessionTree (ScopeSession δ)), (saveAll ts v).world = v
  | [] => rfl
  | t :: ts => by
    rw [saveAll]
    simp only [save_world v t, saveAll_world v ts]

end

mutual

/-- **A tree is staged** alike. -/
theorem save_along (h : Backing.StandsFor f P) {v : Vault β δ} (hwithin : v.Within P) :
    ∀ t : SessionTree (ScopeSession δ),
      t.save (v.along f) = (t.save v).mapWorld (Vault.along f)
  | .single s => by
    have hpart : Participant.save s (v.along f) = (s.save v).mapWorld (Vault.along f) :=
      s.save_along h hwithin
    rw [save, save, hpart]
    rfl
  | .group _ own members => by
    rw [save, save, save_along h hwithin own]
    simp only [Saved.mapWorld, save_world, saveAll_along h hwithin members]
    split <;> rfl

theorem saveAll_along (h : Backing.StandsFor f P) {v : Vault β δ} (hwithin : v.Within P) :
    ∀ ts : List (SessionTree (ScopeSession δ)),
      saveAll ts (v.along f) = (saveAll ts v).mapWorld (Vault.along f)
  | [] => rfl
  | t :: ts => by
    rw [saveAll, saveAll, save_along h hwithin t]
    simp only [Saved.mapWorld, save_world, saveAll_along h hwithin ts]

end

mutual

/-- **A tree is finished** alike. -/
theorem finish_along (h : Backing.StandsFor f P) :
    ∀ (t : SessionTree (ScopeSession δ)) (v : Vault β δ),
    (∀ s ∈ t.parts, s.StagedWithin P) →
      t.finish (v.along f) = (t.finish v).mapWorld (Vault.along f)
  | .single s, v, hparts => by
    have hpart : Participant.finish s (v.along f) = (s.finish v).mapWorld (Vault.along f) :=
      ScopeSession.finish_along h (hparts s List.mem_cons_self) v
    rw [finish, finish, hpart]
    rfl
  | .group _ own members, v, hparts => by
    -- The members come first, and the scope itself goes on with what they leave.
    have hmembers := finishAll_along h members v fun s hs => hparts s (List.mem_append_left _ hs)
    have hown := finish_along h own (finishAll members v).world
      fun s hs => hparts s (List.mem_append_right _ hs)
    rw [finish, finish, hmembers]
    simp only [Finished.mapWorld, hown]
    split <;> rfl

theorem finishAll_along (h : Backing.StandsFor f P) :
    ∀ (ts : List (SessionTree (ScopeSession δ))) (v : Vault β δ),
    (∀ s ∈ partsAll ts, s.StagedWithin P) →
      finishAll ts (v.along f) = (finishAll ts v).mapWorld (Vault.along f)
  | [], _, _ => rfl
  | t :: ts, v, hparts => by
    have hfirst := finish_along h t v fun s hs => hparts s (List.mem_append_left _ hs)
    have hrest := finishAll_along h ts (t.finish v).world
      fun s hs => hparts s (List.mem_append_right _ hs)
    rw [finishAll, finishAll, hfirst]
    simp only [Ended.mapWorld, hrest]
    rfl

end

mutual

/-- **A tree is reset** alike. -/
theorem reset_along (f : β → γ) : ∀ (t : SessionTree (ScopeSession δ)) (v : Vault β δ),
    t.reset (v.along f) = (t.reset v).mapWorld (Vault.along f)
  | .single s, v => by
    have hpart : Participant.reset s (v.along f) = (s.reset v).mapWorld (Vault.along f) :=
      s.reset_along f v
    rw [reset, reset, hpart]
    rfl
  | .group _ own members, v => by
    rw [reset, reset, resetAll_along f members v]
    simp only [reset_along f own]
    split <;> rfl

theorem resetAll_along (f : β → γ) : ∀ (ts : List (SessionTree (ScopeSession δ))) (v : Vault β δ),
    resetAll ts (v.along f) = ((resetAll ts v).1, (resetAll ts v).2.along f)
  | [], _ => rfl
  | t :: ts, v => by
    rw [resetAll, resetAll, reset_along f t v]
    simp only [Ended.mapWorld, resetAll_along f ts]

end

mutual

/-- **A tree is analyzed** alike. -/
theorem analyze_along (h : Backing.StandsFor f P) (changes : ChangeSet) {v : Vault β δ}
    (hwithin : v.Within P) : ∀ t : SessionTree (ScopeSession δ),
      t.analyze changes (v.along f) = ((t.analyze changes v).1, v.along f) ∧
        (t.analyze changes v).2 = v
  | .single s => by
    have hpart : Participant.analyze changes s (v.along f) = (s.analyze changes v, v.along f) :=
      congrArg (·, v.along f) (ScopeSession.analyze_along h changes s hwithin)
    rw [analyze, analyze, hpart]
    exact ⟨rfl, rfl⟩
  | .group _ own members => by
    obtain ⟨hsame, hworld⟩ := analyze_along h changes hwithin own
    rw [analyze, analyze, hsame]
    cases hown : own.analyze changes v with
    | mk meaning v' =>
      rw [hown] at hworld
      obtain rfl : v' = v := hworld
      cases meaning with
      | unreloadable => exact ⟨rfl, rfl⟩
      | reloadable names => exact analyzeAll_along h changes hwithin names members

theorem analyzeAll_along (h : Backing.StandsFor f P) (changes : ChangeSet) {v : Vault β δ}
    (hwithin : v.Within P) (names : List String) : ∀ ts : List (SessionTree (ScopeSession δ)),
      analyzeAll changes names ts (v.along f) = ((analyzeAll changes names ts v).1, v.along f) ∧
        (analyzeAll changes names ts v).2 = v
  | [] => ⟨rfl, rfl⟩
  | t :: ts => by
    obtain ⟨hsame, hworld⟩ := analyze_along h changes hwithin t
    rw [analyzeAll, analyzeAll, hsame]
    cases hfirst : t.analyze changes v with
    | mk meaning v' =>
      rw [hfirst] at hworld
      obtain rfl : v' = v := hworld
      cases meaning with
      | unreloadable => exact ⟨rfl, rfl⟩
      | reloadable more => exact analyzeAll_along h changes hwithin _ ts

end

end SessionTree

end Sessions

end ScopedState
