/-
`Proofs/Vault.lean` -- what one step on a storage does.

Loading and carrying out a write are the two steps that change what is
remembered of a storage, and each changes that one storage. Loading reads and
leaves the store alone; carrying out a write leaves everything alone unless
something is left to write, and then either the store and the storage change
together or neither does. Both are described once here, so that later proofs
need not open them.
-/
import ScopedState.Proofs.Backing
import ScopedState.Vault
set_option autoImplicit false

namespace ScopedState

/-- What has just been read shows no difference. -/
theorem Snapshot.changed_ofContent {δ : Type} [DecidableEq δ] [Digest δ] {unit : Path}
    {content : Option Bytes} {s : Snapshot δ} (h : Snapshot.ofContent unit content = .ok s)
    (known : List String) : s.changed unit content known = .ok [] := by
  unfold ofContent at h
  cases content with
  | none =>
    rw [← Except.ok.inj h]
    rfl
  | some bytes =>
    simp only [] at h
    split at h
    · rw [← Except.ok.inj h]
      exact if_pos rfl
    · cases h

namespace Vault

variable {β δ : Type}

/-! ## 1. Storages by number -/

section Numbers

variable (v : Vault β δ)

@[simp] theorem remember_components (id : StorageId) (s : Snapshot δ) :
    (v.remember id s).components = v.components := rfl

/-- What is remembered changes for one storage. -/
theorem storage?_remember (id : StorageId) (s : Snapshot δ) (k : StorageId) :
    (v.remember id s).storage? k
      = if k = id then (v.storage? k).map fun st => { st with snapshot := s }
        else v.storage? k := by
  rw [storage?, remember, List.getElem?_modify]
  by_cases hk : k = id
  · simp only [if_pos hk, if_pos hk.symm, Option.map_eq_map]
    rfl
  · simp only [if_neg hk, if_neg (Ne.symm hk), Option.map_eq_map, Option.map_id']
    rfl

/-- **A storage is known by its number.** -/
theorem ext_storages {v w : Vault β δ} (hbacking : v.backing = w.backing)
    (hcomponents : v.components = w.components) (h : ∀ k, v.storage? k = w.storage? k) : v = w := by
  obtain ⟨backing, storages, components⟩ := v
  obtain ⟨backing', storages', components'⟩ := w
  have hstorages : storages = storages' := List.ext_getElem? h
  cases hbacking
  cases hcomponents
  cases hstorages
  rfl

end Numbers

variable [Backing β] [Digest δ]

/-! ## 2. Loading -/

/-- What loading makes of a storage: its unit as it is on disk, or what was
remembered before if it cannot be read. -/
def reread (v : Vault β δ) (s : Storage δ) : Storage δ :=
  match v.readSnapshot s.unit with
  | .ok snapshot => { s with snapshot }
  | .error _ => s

/-- Whether a storage can be loaded. -/
def loads (v : Vault β δ) (id : StorageId) : Bool := (v.load id).1.isOk

theorem load_backing (v : Vault β δ) (id : StorageId) : (v.load id).2.backing = v.backing := by
  unfold load
  split
  · rfl
  · split <;> rfl

theorem load_components (v : Vault β δ) (id : StorageId) :
    (v.load id).2.components = v.components := by
  unfold load
  split
  · rfl
  · split <;> rfl

/-- **Loading rereads one storage.** -/
theorem storage?_load (v : Vault β δ) (id k : StorageId) :
    (v.load id).2.storage? k = if k = id then (v.storage? k).map v.reread else v.storage? k := by
  by_cases hk : k = id
  · subst hk
    rw [if_pos rfl, load]
    split
    · rename_i hnone
      rw [hnone]
      rfl
    · rename_i s hs
      split
      · rename_i e he
        rw [hs, Option.map_some, reread, he]
      · rename_i snapshot hsnapshot
        rw [storage?_remember, if_pos rfl, hs, Option.map_some, Option.map_some, reread, hsnapshot]
  · rw [if_neg hk, load]
    split
    · rfl
    · split
      · rfl
      · rw [storage?_remember, if_neg hk]

theorem reread_unit (v : Vault β δ) (s : Storage δ) : (v.reread s).unit = s.unit := by
  unfold reread
  split <;> rfl

/-- A unit is read as what its content is parsed into. -/
theorem readSnapshot_eq_ok_iff {v : Vault β δ} {unit : Path} {s : Snapshot δ} :
    v.readSnapshot unit = .ok s ↔
      ∃ content, Backing.read v.backing unit = .ok content ∧
        Snapshot.ofContent unit content = .ok s := by
  rw [readSnapshot]
  cases Backing.read v.backing unit with
  | error e =>
    constructor
    · intro h
      cases h
    · rintro ⟨_, hcontent, _⟩
      cases hcontent
  | ok content =>
    refine ⟨fun h => ⟨content, rfl, h⟩, ?_⟩
    rintro ⟨_, hcontent, h⟩
    rw [Except.ok.inj hcontent]
    exact h

/-- What is read depends on the store alone. -/
theorem readSnapshot_congr {v w : Vault β δ} (h : v.backing = w.backing) (unit : Path) :
    v.readSnapshot unit = w.readSnapshot unit := by
  rw [readSnapshot, readSnapshot, h]

theorem reread_congr {v w : Vault β δ} (h : v.backing = w.backing) (s : Storage δ) :
    v.reread s = w.reread s := by
  rw [reread, reread, readSnapshot_congr h]

/-- Reading a unit a second time gives what the first time gave. -/
theorem reread_reread (v : Vault β δ) (s : Storage δ) : v.reread (v.reread s) = v.reread s := by
  rw [reread, reread_unit]
  cases hread : v.readSnapshot s.unit with
  | error e => rfl
  | ok snapshot => rw [reread, hread]

/-- **The outcome of a load** depends on the unit and the store. -/
theorem load_outcome (v : Vault β δ) (id : StorageId) :
    (v.load id).1
      = (v.storage? id).elim (.ok ()) fun s => (v.readSnapshot s.unit).map fun _ => () := by
  unfold load
  cases v.storage? id with
  | none => rfl
  | some s =>
    simp only [Option.elim_some]
    cases v.readSnapshot s.unit <;> rfl

/-- A load that fails changes nothing. -/
theorem load_of_not_loads {v : Vault β δ} {id : StorageId} (h : ¬ v.loads id = true) :
    (v.load id).2 = v := by
  unfold loads at h
  revert h
  unfold load
  split
  · exact fun _ => rfl
  · split
    · exact fun _ => rfl
    · intro h
      exact absurd rfl h

/-- A load does not change what another one comes to. -/
theorem load_outcome_after_load (v : Vault β δ) (id k : StorageId) :
    ((v.load id).2.load k).1 = (v.load k).1 := by
  have hread : ∀ unit, (v.load id).2.readSnapshot unit = v.readSnapshot unit :=
    readSnapshot_congr (v.load_backing id)
  rw [load_outcome, load_outcome, storage?_load]
  split
  · cases v.storage? k with
    | none => rfl
    | some s => rw [Option.map_some, Option.elim_some, Option.elim_some, hread, reread_unit]
  · simp only [hread]

theorem loads_after_load (v : Vault β δ) (id k : StorageId) :
    (v.load id).2.loads k = v.loads k := by
  rw [loads, loads, load_outcome_after_load]

/-- **A storage that has just been read shows no difference.** -/
theorem changed_of_reread [DecidableEq δ] {v after : Vault β δ} {k : StorageId}
    (hbacking : after.backing = v.backing) (hloads : v.loads k = true)
    (hstorage : after.storage? k = (v.storage? k).map v.reread) (known : List String) :
    after.changed k known = .ok [] := by
  rw [loads, load_outcome] at hloads
  rw [changed, hstorage]
  cases hs : v.storage? k with
  | none => rfl
  | some s =>
    rw [hs, Option.elim_some] at hloads
    simp only [Option.map_some, hbacking, reread_unit]
    -- The storage could be loaded, so its unit can be read.
    cases hread : v.readSnapshot s.unit with
    | error e =>
      rw [hread] at hloads
      cases hloads
    | ok snapshot =>
      have hsnapshot : (v.reread s).snapshot = snapshot := by rw [reread, hread]
      obtain ⟨content, hcontent, hparsed⟩ := readSnapshot_eq_ok_iff.mp hread
      rw [hcontent, hsnapshot]
      exact Snapshot.changed_ofContent hparsed known

/-! ## 3. Carrying out a write -/

section CarryOut

variable [DecidableEq δ]

omit [Backing β] in
/-- Bringing a write up to date changes its draft only. -/
theorem rebase_eq_some {v : Vault β δ} {w w' : StagedWrite δ} (h : v.rebase w = some w') :
    ∃ draft, (v.snapshot w.storage).rebase w.draft = some draft ∧ w' = { w with draft } := by
  rw [rebase, Option.map_eq_some_iff] at h
  obtain ⟨draft, hdraft, hw'⟩ := h
  exact ⟨draft, hdraft, hw'.symm⟩

omit [Backing β] in
theorem rebase_storage {v : Vault β δ} {w w' : StagedWrite δ} (h : v.rebase w = some w') :
    w'.storage = w.storage := by
  obtain ⟨draft, _, rfl⟩ := rebase_eq_some h
  rfl

omit [Backing β] in
theorem rebase_unit {v : Vault β δ} {w w' : StagedWrite δ} (h : v.rebase w = some w') :
    w'.unit = w.unit := by
  obtain ⟨draft, _, rfl⟩ := rebase_eq_some h
  rfl

/-- **What carrying out a write can come to**: nothing is left to write, or the
store takes the write, or it refuses it. -/
theorem carryOut_cases (v : Vault β δ) (w : StagedWrite δ) :
    (v.rebase w = none ∧ v.carryOut w = (.ok (), v)) ∨
      (∃ w' backing, v.rebase w = some w' ∧
        Backing.write v.backing w'.unit w'.draft.bytes = (.ok (), backing) ∧
        v.carryOut w = (.ok (), { v with backing }.commit w')) ∨
      ∃ w' backing e, v.rebase w = some w' ∧
        Backing.write v.backing w'.unit w'.draft.bytes = (.error e, backing) ∧
        v.carryOut w = (.error e, { v with backing }) := by
  unfold carryOut
  cases hrebase : v.rebase w with
  | none => exact Or.inl ⟨rfl, rfl⟩
  | some w' =>
    simp only []
    cases hwrite : Backing.write v.backing w'.unit w'.draft.bytes with
    | mk outcome backing =>
      cases outcome with
      | ok => exact Or.inr (Or.inl ⟨w', backing, rfl, hwrite, rfl⟩)
      | error e => exact Or.inr (Or.inr ⟨w', backing, e, rfl, hwrite, rfl⟩)

theorem carryOut_components (v : Vault β δ) (w : StagedWrite δ) :
    (v.carryOut w).2.components = v.components := by
  rcases v.carryOut_cases w with ⟨_, h⟩ | ⟨w', backing, _, _, h⟩ | ⟨w', backing, e, _, _, h⟩ <;>
    rw [h]
  rfl

variable [LawfulBacking β]

omit [Digest δ] [DecidableEq δ] in
/-- What is at a location. -/
def contents (v : Vault β δ) (l : Location) : Option Bytes := LawfulBacking.contents v.backing l

omit [Backing β] [Digest δ] [DecidableEq δ] [LawfulBacking β] in
theorem snapshot_eq {v : Vault β δ} {id : StorageId} {s : Storage δ}
    (h : v.storage? id = some s) : v.snapshot id = s.snapshot := by
  rw [snapshot, h]

omit [Digest δ] [DecidableEq δ] in
theorem contents_remember (v : Vault β δ) (id : StorageId) (s : Snapshot δ) :
    (v.remember id s).contents = v.contents := rfl

/-- **What carrying out a write does to its unit.** Nothing when nothing is left
to write; else both the unit and what is remembered of it are those of the
write, or both stay. -/
theorem carryOut_unit {v : Vault β δ} {w : StagedWrite δ} {s : Storage δ}
    (hs : v.storage? w.storage = some s) (hunit : w.unit = s.unit) :
    (s.snapshot.rebase w.draft = none ∧ v.carryOut w = (.ok (), v)) ∨
      (∃ draft, s.snapshot.rebase w.draft = some draft ∧ (v.carryOut w).1 = .ok () ∧
        (v.carryOut w).2.storage? w.storage = some { s with snapshot := Snapshot.ofDraft draft } ∧
        (v.carryOut w).2.contents s.unit.location = some draft.bytes) ∨
      (∃ e, (v.carryOut w).1 = .error e) ∧ (v.carryOut w).2.storage? = v.storage? ∧
        (v.carryOut w).2.contents = v.contents := by
  have hsnapshot := snapshot_eq hs
  rcases v.carryOut_cases w with
    ⟨hnone, h⟩ | ⟨w', backing, hsome, hwrite, h⟩ | ⟨w', backing, e, hsome, hwrite, h⟩
  · rw [rebase, hsnapshot, Option.map_eq_none_iff] at hnone
    exact Or.inl ⟨hnone, h⟩
  · obtain ⟨draft, hdraft, rfl⟩ := rebase_eq_some hsome
    rw [hsnapshot] at hdraft
    -- Store and storage change together: the one after the other, in one step.
    refine Or.inr (Or.inl ⟨draft, hdraft, by rw [h], ?_, ?_⟩)
    · rw [h, commit, storage?_remember, if_pos rfl]
      exact congrArg (Option.map _) hs
    · rw [h, commit, contents_remember, contents, LawfulBacking.write_ok hwrite, hunit, if_pos rfl]
  · refine Or.inr (Or.inr ⟨⟨e, by rw [h]⟩, by rw [h]; rfl, ?_⟩)
    rw [h]
    exact funext (LawfulBacking.write_error hwrite)

omit [LawfulBacking β] in
/-- Carrying out a write leaves what is remembered of other storages alone. -/
theorem storage?_carryOut_other (v : Vault β δ) {w : StagedWrite δ} {k : StorageId}
    (hk : w.storage ≠ k) : (v.carryOut w).2.storage? k = v.storage? k := by
  rcases v.carryOut_cases w with
    ⟨_, h⟩ | ⟨w', backing, hsome, _, h⟩ | ⟨w', backing, e, _, _, h⟩
  · rw [h]
  · rw [h, commit, storage?_remember, rebase_storage hsome, if_neg (Ne.symm hk)]
    rfl
  · rw [h]
    rfl

/-- Carrying out a write leaves other locations alone. -/
theorem contents_carryOut_other (v : Vault β δ) {w : StagedWrite δ} {l : Location}
    (hl : w.unit.location ≠ l) : (v.carryOut w).2.contents l = v.contents l := by
  rcases v.carryOut_cases w with
    ⟨_, h⟩ | ⟨w', backing, hsome, hwrite, h⟩ | ⟨w', backing, e, _, hwrite, h⟩
  · rw [h]
  · rw [h, commit, contents_remember, contents, LawfulBacking.write_ok hwrite, rebase_unit hsome,
      if_neg (Ne.symm hl)]
    rfl
  · rw [h]
    exact LawfulBacking.write_error hwrite l

end CarryOut

end Vault

end ScopedState
