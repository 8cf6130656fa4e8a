/-
`Proofs/Storage/Files.lean` -- staged writes on a disk.

Storages are kept in files, each at a place of its own, and scopes have staged
states for them. When the writes are carried out, each one replaces the file of its
storage, by way of a temporary file beside it. What is carried from one write to the
next speaks of all storages at once: each of them is as `Carried` says, and any
other place that is not that of a temporary file is as it was, but for directories
that have been made.
-/
import ScopedState.Proofs.Disk
import ScopedState.Proofs.Session.Commit
import ScopedState.Proofs.Storage.Names
set_option autoImplicit false

namespace ScopedState

open Bindings (Sorted get? keys)
open Disk (Temporary)

/-! ## 1. Places that nobody writes to -/

/-- What is at a place has stayed, or a directory has come where there was
nothing. -/
def Disk.Stays (d d' : Disk) (q : Place) : Prop :=
  d'.node? q = d.node? q ∨ (d.node? q = none ∧ d'.node? q = some .directory)

namespace Disk.Stays

variable {d d' d'' : Disk} {q : Place}

theorem trans (h : d.Stays d' q) (h' : d'.Stays d'' q) : d.Stays d'' q := by
  rcases h' with h' | ⟨hnone, hmade⟩
  · rcases h with h | ⟨hnone, hmade⟩
    · exact Or.inl (h'.trans h)
    · exact Or.inr ⟨hnone, h'.trans hmade⟩
  · rcases h with h | ⟨_, hdirectory⟩
    · exact Or.inr ⟨h.symm.trans hnone, hmade⟩
    · rw [hdirectory] at hnone
      cases hnone

theorem contentAt_eq (h : d.Stays d' q) : d'.contentAt q = d.contentAt q := by
  rcases h with h | ⟨hnone, hmade⟩
  · rw [Disk.contentAt, Disk.contentAt, h]
  · rw [Disk.contentAt, Disk.contentAt, hnone, hmade]

end Disk.Stays

variable {δ : Type} [Digest δ]

/-! ## 2. Storages in files -/

/-- **Storages in files**: each is spelled for a place of its own, which is not that of
a temporary file, and what is remembered of it describes the file there. -/
structure Vault.Filed (v : Vault LocalFiles δ) (place : StorageId → Place) : Prop where
  tree : v.backing.disk.Tree
  spells : ∀ k st, v.storage? k = some st →
    ∃ parent name, place k = parent ++ [name] ∧ v.backing.disk.Spells st.unit parent name
  lasting : ∀ k st, v.storage? k = some st → ¬ Temporary (place k)
  apart : ∀ k st k' st', v.storage? k = some st → v.storage? k' = some st' →
    place k = place k' → k = k'
  describes : ∀ k st, v.storage? k = some st →
    st.snapshot.Describes (v.backing.disk.contentAt (place k))
  regular : ∀ k st, v.storage? k = some st → st.snapshot.document.Regular

/-- Storages in files some of whose writes have been carried out: for each of them
those of the states `l`. -/
structure Vault.Written (v₀ : Vault LocalFiles δ) (place : StorageId → Place)
    (l : StorageId → List States) (v : Vault LocalFiles δ) : Prop where
  tree : v.backing.disk.Tree
  cwd : v.backing.disk.cwd = v₀.backing.disk.cwd
  extend : v₀.backing.disk.Extends v.backing.disk
  storage : ∀ k st, v₀.storage? k = some st → ∃ s, v.storage? k = some { st with snapshot := s } ∧
    Carried st.snapshot (v₀.backing.disk.contentAt (place k)) (l k)
      (v.backing.disk.contentAt (place k)) s
  other : ∀ q, (∀ k st, v₀.storage? k = some st → q ≠ place k) → ¬ Temporary q →
    v₀.backing.disk.Stays v.backing.disk q

/-- A write that was staged before any was carried out, of states that take nothing
away. -/
structure StagedWrite.Fresh (v : Vault LocalFiles δ) (w : StagedWrite δ) (st : Storage δ) :
    Prop where
  storage : v.storage? w.storage = some st
  unit : w.unit = st.unit
  draft : w.draft = st.snapshot.draft w.draft.states
  states : w.draft.states.Regular

/-- A write that is accepted replaces the file. -/
theorem LocalFiles.write_eq_ok {l l' : LocalFiles} {unit : Path} {bytes : Bytes}
    (h : Backing.write l unit bytes = (.ok (), l')) :
    writeAtomic l.disk unit bytes = (.ok (), l'.disk) := by
  have hwrite : l.write unit bytes = (.ok (), l') := h
  unfold write at hwrite
  split at hwrite
  · rename_i disk hdisk
    rw [hdisk, ← (Prod.mk.inj hwrite).2]
  · cases hwrite

namespace Vault.Written

variable {v₀ v : Vault LocalFiles δ} {place : StorageId → Place} {l : StorageId → List States}
  {w : StagedWrite δ} {st : Storage δ}

theorem start (h : v₀.Filed place) : v₀.Written place (fun _ => []) v₀ where
  tree := h.tree
  cwd := rfl
  extend := Disk.Extends.refl _
  storage k st hst := ⟨st.snapshot, hst, Carried.start (h.describes k st hst) (h.regular k st hst)⟩
  other _ _ _ := Or.inl rfl

section Steps

variable [DecidableEq δ]

/-- **One write is carried out.** Its storage goes on as it is carried, and all other
places stay. -/
theorem carryOut (hfaithful : Digest.Faithful δ) (hfiled : v₀.Filed place)
    (h : v₀.Written place l v) (hw : w.Fresh v₀ st) (hok : (v.carryOut w).1 = .ok ()) :
    v₀.Written place (fun k => if w.storage = k then l k ++ [w.draft.states] else l k)
      (v.carryOut w).2 := by
  obtain ⟨s, hs, hcarried⟩ := h.storage _ st hw.storage
  have hdescribes := hfiled.describes _ st hw.storage
  rcases v.carryOut_cases w with
    ⟨hnone, hout⟩ | ⟨w', backing, hdue, hwrite, hout⟩ | ⟨_, _, e, _, _, hout⟩
  · -- Nothing is left to write.
    rw [hout]
    refine { h with storage := fun k t ht => ?_ }
    split
    · rename_i hk
      subst hk
      obtain rfl : t = st := Option.some.inj (ht.symm.trans hw.storage)
      rw [Vault.rebase, Vault.snapshot_eq hs, Option.map_eq_none_iff] at hnone
      exact ⟨s, hs, hcarried.drop hfaithful hdescribes hw.states hnone⟩
    · exact h.storage k t ht
  · obtain ⟨draft, hdraft, rfl⟩ := Vault.rebase_eq_some hdue
    rw [Vault.snapshot_eq hs] at hdraft
    obtain ⟨parent, name, hplace, hspells⟩ := hfiled.spells _ st hw.storage
    have hreplaced : Disk.Replaced v.backing.disk backing.disk (place w.storage) draft.bytes := by
      rw [hplace]
      refine hspells.replaced h.extend h.tree ?_
      rw [← hw.unit]
      exact LocalFiles.write_eq_ok hwrite
    rw [hout]
    refine ⟨hreplaced.tree, hreplaced.cwd.trans h.cwd, h.extend.trans hreplaced.extend,
      fun k t ht => ?_, fun q hq htemporary => ?_⟩
    · show ∃ s, (({ v with backing } : Vault LocalFiles δ).remember w.storage
        (Snapshot.ofDraft draft)).storage? k = _ ∧ _
      rw [Vault.storage?_remember]
      split
      · rename_i hk
        subst hk
        obtain rfl : t = st := Option.some.inj (ht.symm.trans hw.storage)
        have hstorage : ({ v with backing } : Vault LocalFiles δ).storage? w.storage
            = some { t with snapshot := s } := hs
        refine ⟨Snapshot.ofDraft draft, by rw [hstorage]; rfl, ?_⟩
        rw [if_pos rfl]
        show Carried t.snapshot _ _ (backing.disk.contentAt (place w.storage)) _
        rw [hreplaced.written]
        exact hcarried.write hfaithful hdescribes (hfiled.regular _ t ht) hw.draft hw.states hdraft
      · rename_i hk
        obtain ⟨s', hs', hcarried'⟩ := h.storage k t ht
        have hstays : v.backing.disk.Stays backing.disk (place k) :=
          hreplaced.other _ (fun hp => hk (hfiled.apart k t _ st ht hw.storage hp))
            (hfiled.lasting k t ht)
        refine ⟨s', hs', ?_⟩
        rw [if_neg (Ne.symm hk)]
        show Carried t.snapshot _ _ (backing.disk.contentAt (place k)) _
        rwa [hstays.contentAt_eq]
    · exact (h.other q hq htemporary).trans (hreplaced.other q (hq _ st hw.storage) htemporary)
  · rw [hout] at hok
    cases hok

/-- **All writes are carried out**, if the disk takes every one. -/
theorem perform (hfaithful : Digest.Faithful δ) (hfiled : v₀.Filed place)
    (h : v₀.Written place l v) {ws : List (String × StagedWrite δ)}
    (hws : ∀ w ∈ ws, ∃ st, w.2.Fresh v₀ st) (hok : ∀ t ∈ Turn.all ws v, t.answer = .ok ()) :
    v₀.Written place (fun k => l k ++ statesFor k ws) (Turn.perform ws v) := by
  induction ws generalizing v l with
  | nil =>
    have hl : (fun k => l k ++ statesFor k ([] : List (String × StagedWrite δ))) = l :=
      funext fun k => List.append_nil (l k)
    rw [hl]
    exact h
  | cons w ws ih =>
    obtain ⟨scope, staged⟩ := w
    obtain ⟨st, hfresh⟩ := hws _ List.mem_cons_self
    have hanswer : (v.carryOut staged).1 = .ok () :=
      (Turn.carryOut_outcome ⟨scope, staged, v⟩).trans (hok _ List.mem_cons_self)
    have hend := ih (h.carryOut hfaithful hfiled hfresh hanswer)
      (fun x hx => hws x (List.mem_cons_of_mem _ hx)) fun t ht => hok t (List.mem_cons_of_mem _ ht)
    have hl : (fun k => l k ++ statesFor k ((scope, staged) :: ws))
        = fun k => (if staged.storage = k then l k ++ [staged.draft.states] else l k)
          ++ statesFor k ws := by
      funext k
      rw [statesFor_cons]
      split
      · rw [List.append_cons]
      · rfl
    rw [hl]
    exact hend

end Steps

end Vault.Written

end ScopedState
