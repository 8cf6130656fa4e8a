/-
`Proofs/Storage/Coherence.lean` -- storages that describe their units.

A snapshot describes a unit when its digest is that of the content and its
document is what the content was parsed into or serialized from. Loading makes
it so, and a write that the store takes keeps it so, for the unit that is
written. The other units keep describing theirs as long as no two storages are
about the same unit; which storages that holds of is for the caller to say, so
both are stated of the storages in use (`Vault.CoherentOn`).
-/
import ScopedState.Proofs.Storage.Draft
set_option autoImplicit false

namespace ScopedState

open Bindings (Sorted get?)

variable {β δ : Type}

/-! ## 1. One unit -/

section Describing

variable [Digest δ]

/-- What is remembered of a unit describes its content. -/
structure Snapshot.Describes (s : Snapshot δ) (content : Option Bytes) : Prop where
  sorted : Sorted s.document
  hash : s.hash = content.map Digest.ofBytes
  absent : content = none → s.document = []
  present : ∀ bytes, content = some bytes →
    (∃ unit, Document.parse unit bytes = .ok s.document) ∨ bytes = s.document.serialize

/-- **What has been read describes the unit.** -/
theorem Snapshot.describes_ofContent {unit : Path} {content : Option Bytes} {s : Snapshot δ}
    (h : Snapshot.ofContent unit content = .ok s) : s.Describes content := by
  cases content with
  | none =>
    rw [← Except.ok.inj h]
    refine ⟨Bindings.sorted_nil, rfl, fun _ => rfl, ?_⟩
    intro bytes hbytes
    cases hbytes
  | some bytes =>
    simp only [ofContent] at h
    split at h
    · rename_i d hd
      rw [← Except.ok.inj h]
      refine ⟨Document.sorted_of_parse hd, rfl, ?_, ?_⟩
      · intro hnone
        cases hnone
      · intro found hfound
        rw [← Option.some.inj hfound]
        exact Or.inl ⟨unit, hd⟩
    · cases h

/-- **What has been written describes the unit.** -/
theorem Snapshot.describes_ofDraft {d : Draft δ} (hd : d.Sound) :
    (Snapshot.ofDraft d).Describes (some d.bytes) := by
  refine ⟨hd.document, congrArg some hd.hash, ?_, ?_⟩
  · intro hnone
    cases hnone
  · intro bytes hbytes
    rw [← Option.some.inj hbytes]
    exact Or.inr hd.bytes

end Describing

/-! ## 2. Units by number -/

namespace Vault

/-- The unit of the storage with a number. -/
def unit? (v : Vault β δ) (k : StorageId) : Option Path := (v.storage? k).map Storage.unit

theorem unit?_of_storage? {v : Vault β δ} {k : StorageId} {s : Storage δ}
    (h : v.storage? k = some s) : v.unit? k = some s.unit := by
  rw [unit?, h]
  rfl

theorem unit?_eq_some {v : Vault β δ} {k : StorageId} {u : Path} (h : v.unit? k = some u) :
    ∃ s, v.storage? k = some s ∧ s.unit = u := Option.map_eq_some_iff.mp h

/-- Where the unit of the storage with a number is. -/
def location? (v : Vault β δ) (k : StorageId) : Option Location := (v.unit? k).map Path.location

theorem location?_of_unit? {v : Vault β δ} {k : StorageId} {u : Path} (h : v.unit? k = some u) :
    v.location? k = some u.location := by
  rw [location?, h]
  rfl

/-- A number that is given out keeps its unit. -/
def Keeps (v v' : Vault β δ) : Prop := ∀ k u, v.unit? k = some u → v'.unit? k = some u

theorem Keeps.refl (v : Vault β δ) : v.Keeps v := fun _ _ h => h

theorem Keeps.trans {v v' v'' : Vault β δ} (h : v.Keeps v') (h' : v'.Keeps v'') : v.Keeps v'' :=
  fun k u hk => h' k u (h k u hk)

theorem Keeps.of_eq {v v' : Vault β δ} (h : v'.unit? = v.unit?) : v.Keeps v' := by
  intro k u hk
  rw [h]
  exact hk

theorem Keeps.location? {v v' : Vault β δ} (h : v.Keeps v') {k : StorageId} {l : Location}
    (hl : v.location? k = some l) : v'.location? k = some l := by
  obtain ⟨u, hu, rfl⟩ := Option.map_eq_some_iff.mp hl
  exact location?_of_unit? (h k u hu)

theorem unit?_remember (v : Vault β δ) (id : StorageId) (s : Snapshot δ) :
    (v.remember id s).unit? = v.unit? := by
  funext k
  rw [unit?, storage?_remember]
  split
  · rw [Option.map_map]
    rfl
  · rfl

/-- A new storage gets the next number. -/
theorem storage?_addStorage (v : Vault β δ) (s : Storage δ) (k : StorageId) :
    (v.addStorage s).2.storage? k = if k = v.storages.length then some s else v.storage? k := by
  rw [storage?, storage?, addStorage]
  split
  · rename_i hk
    rw [hk]
    exact List.getElem?_concat_length
  · rename_i hk
    rcases Nat.lt_or_gt_of_ne hk with hlt | hgt
    · exact List.getElem?_append_left hlt
    · rw [List.getElem?_eq_none (Nat.le_of_lt hgt), List.getElem?_eq_none]
      rw [List.length_append]
      exact hgt

theorem unit?_length (v : Vault β δ) : v.unit? v.storages.length = none := by
  rw [unit?, storage?, List.getElem?_eq_none (Nat.le_refl _)]
  rfl

theorem unit?_addStorage (v : Vault β δ) (s : Storage δ) (k : StorageId) :
    (v.addStorage s).2.unit? k = if k = v.storages.length then some s.unit else v.unit? k := by
  rw [unit?, storage?_addStorage]
  split <;> rfl

theorem keeps_addStorage (v : Vault β δ) (s : Storage δ) : v.Keeps (v.addStorage s).2 := by
  intro k u hk
  rw [unit?_addStorage]
  split
  · rename_i hlength
    rw [hlength, unit?_length] at hk
    cases hk
  · exact hk

section Steps

variable [Backing β] [DecidableEq δ] [Digest δ]

omit [DecidableEq δ] in
theorem unit?_load (v : Vault β δ) (id : StorageId) : (v.load id).2.unit? = v.unit? := by
  funext k
  rw [unit?, storage?_load]
  split
  · rw [Option.map_map, unit?]
    congr 1
    funext s
    exact v.reread_unit s
  · rfl

theorem unit?_carryOut (v : Vault β δ) (w : StagedWrite δ) : (v.carryOut w).2.unit? = v.unit? := by
  rcases v.carryOut_cases w with
    ⟨_, h⟩ | ⟨w', backing, _, _, h⟩ | ⟨w', backing, e, _, _, h⟩
  · rw [h]
  · rw [h]
    exact unit?_remember { v with backing } _ _
  · rw [h]
    rfl

end Steps

end Vault

/-! ## 3. Units in use -/

/-- A staged write is for the unit of the storage it was staged for. -/
theorem Vault.unit?_of_stage [DecidableEq δ] [Digest δ] {v : Vault β δ} {k : StorageId}
    {states : States} {w : StagedWrite δ} (h : v.stage k states = some w) :
    w.storage = k ∧ v.unit? k = some w.unit := by
  unfold stage at h
  split at h
  · cases h
  · rename_i s hs
    obtain ⟨draft, _, rfl⟩ := Option.map_eq_some_iff.mp h
    exact ⟨rfl, unit?_of_storage? hs⟩

/-- A staged write fits: it is for the unit of its storage, and sound. -/
structure StagedWrite.Fits [Digest δ] (w : StagedWrite δ) (v : Vault β δ) : Prop where
  unit : v.unit? w.storage = some w.unit
  sound : w.draft.Sound

theorem StagedWrite.Fits.of_keeps [Digest δ] {w : StagedWrite δ} {v v' : Vault β δ}
    (h : w.Fits v) (hkeeps : v.Keeps v') : w.Fits v' := ⟨hkeeps _ _ h.unit, h.sound⟩

namespace Vault

section Coherence

variable [Backing β] [LawfulBacking β] [Digest δ] {v : Vault β δ} {used : StorageId → Prop}

/-- The storages in use describe their units, and no two of them are about the
same unit. -/
structure CoherentOn (v : Vault β δ) (used : StorageId → Prop) : Prop where
  describes : ∀ k s, used k → v.storage? k = some s →
    s.snapshot.Describes (v.contents s.unit.location)
  apart : ∀ k k' l, used k → used k' → v.location? k = some l → v.location? k' = some l → k = k'

/-- **Staging gives a write that fits.** -/
theorem CoherentOn.fits_of_stage [DecidableEq δ] (h : v.CoherentOn used) {k : StorageId}
    (hk : used k) {states : States} (hstates : Sorted states) {w : StagedWrite δ}
    (hw : v.stage k states = some w) : w.storage = k ∧ w.Fits v := by
  unfold stage at hw
  split at hw
  · cases hw
  · rename_i s hs
    obtain ⟨draft, hdraft, rfl⟩ := Option.map_eq_some_iff.mp hw
    exact ⟨rfl, unit?_of_storage? hs,
      Snapshot.sound_of_stage (h.describes k s hk hs).sorted hstates hdraft⟩

/-- What is read from the store describes the unit. -/
theorem describes_of_readSnapshot {unit : Path} {s : Snapshot δ}
    (h : v.readSnapshot unit = .ok s) : s.Describes (v.contents unit.location) := by
  obtain ⟨content, hcontent, hparsed⟩ := readSnapshot_eq_ok_iff.mp h
  rw [contents, ← LawfulBacking.read_ok hcontent]
  exact Snapshot.describes_ofContent hparsed

/-- **Reading units again keeps storages coherent.** Each storage is as it was, or
as its unit is. -/
theorem CoherentOn.of_reread (h : v.CoherentOn used) {v' : Vault β δ}
    (hbacking : v'.backing = v.backing) (hunit : v'.unit? = v.unit?)
    (hstorage : ∀ k, v'.storage? k = v.storage? k ∨
      v'.storage? k = (v.storage? k).map v.reread) : v'.CoherentOn used := by
  have hcontents : v'.contents = v.contents := by
    funext l
    rw [contents, contents, hbacking]
  refine ⟨fun k s hk hs => ?_, ?_⟩
  · rw [hcontents]
    rcases hstorage k with hsame | hread
    · exact h.describes k s hk (hsame ▸ hs)
    · rw [hread] at hs
      obtain ⟨t, ht, rfl⟩ := Option.map_eq_some_iff.mp hs
      rw [reread_unit, reread]
      cases hread : v.readSnapshot t.unit with
      | error e => exact h.describes k t hk ht
      | ok snapshot => exact describes_of_readSnapshot hread
  · unfold location?
    rw [hunit]
    exact h.apart

/-- **Carrying out a write keeps storages coherent**, whatever the store says
to it. -/
theorem CoherentOn.carryOut [DecidableEq δ] (h : v.CoherentOn used) {w : StagedWrite δ}
    (hw : w.Fits v) (hused : used w.storage) : (v.carryOut w).2.CoherentOn used := by
  -- No unit changes its place, so it is enough that each storage describes its own.
  refine ⟨fun k s hk hs => ?_, ?_⟩
  · rcases v.carryOut_cases w with
      ⟨_, hout⟩ | ⟨w', backing, hsome, hwrite, hout⟩ | ⟨w', backing, e, _, hwrite, hout⟩
    · rw [hout] at hs ⊢
      exact h.describes k s hk hs
    · obtain ⟨draft, hdraft, rfl⟩ := rebase_eq_some hsome
      obtain ⟨t, ht, htunit⟩ := unit?_eq_some hw.unit
      rw [hout] at hs ⊢
      rw [commit, storage?_remember] at hs
      rw [commit, contents_remember, contents, LawfulBacking.write_ok hwrite]
      split at hs
      · -- The written unit has the document that was written.
        rename_i hkw
        have hs' : s = { t with snapshot := Snapshot.ofDraft draft } := by
          rw [hkw] at hs
          exact Option.some.inj (hs.symm.trans (congrArg (Option.map _) ht))
        rw [hs', if_pos (congrArg Path.location htunit)]
        have hsound : draft.Sound := by
          rw [snapshot_eq ht] at hdraft
          exact Snapshot.sound_of_rebase (h.describes _ t hused ht).sorted hw.sound hdraft
        exact Snapshot.describes_ofDraft hsound
      · -- Any other storage is about another unit.
        rename_i hkw
        have hs' : v.storage? k = some s := hs
        have hk' := location?_of_unit? (unit?_of_storage? hs')
        have hw' := location?_of_unit? hw.unit
        have hother : s.unit.location ≠ w.unit.location := by
          intro hl
          rw [hl] at hk'
          exact hkw (h.apart k w.storage _ hk hused hk' hw')
        rw [if_neg hother]
        exact h.describes k s hk hs'
    · rw [hout] at hs ⊢
      have hcontents : ∀ l, LawfulBacking.contents backing l = v.contents l :=
        LawfulBacking.write_error hwrite
      rw [contents, hcontents]
      exact h.describes k s hk hs
  · unfold location?
    rw [unit?_carryOut]
    exact h.apart

/-- Only contents and storages matter. -/
theorem CoherentOn.congr {v' : Vault β δ} (h : v.CoherentOn used)
    (hcontents : v'.contents = v.contents) (hstorage : v'.storage? = v.storage?) :
    v'.CoherentOn used := by
  have hunit : v'.unit? = v.unit? := by
    funext k
    rw [unit?, unit?, hstorage]
  refine ⟨?_, ?_⟩
  · rw [hcontents, hstorage]
    exact h.describes
  · unfold location?
    rw [hunit]
    exact h.apart

end Coherence

end Vault

end ScopedState
