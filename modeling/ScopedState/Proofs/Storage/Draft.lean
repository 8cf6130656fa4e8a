/-
`Proofs/Storage/Draft.lean` -- what staging computes.

There is only one write that can persist some states on top of a snapshot: the
document with the states merged in (`Snapshot.draft`). Staging either gives
that write or says that nothing has to be written, and bringing a write up to
date either leaves it alone or stages its states again. The two ways in which
nothing has to be written are kept apart: the document stays equal, or the
bytes come out as the ones on disk.
-/
import ScopedState.Proofs.Storage.Document
import ScopedState.Proofs.Vault
set_option autoImplicit false

namespace ScopedState

open Bindings (Sorted get?)

variable {δ : Type} [DecidableEq δ] [Digest δ]

namespace Snapshot

variable {s : Snapshot δ} {states : States}

/-- The write of some states on top of a snapshot. -/
def draft (s : Snapshot δ) (states : States) : Draft δ :=
  { bytes := (s.document.merge states).serialize
    hash := Digest.ofBytes (s.document.merge states).serialize
    document := s.document.merge states
    states
    base := s.hash }

/-- Nothing has to be written because the document stays equal. -/
def Redundant (s : Snapshot δ) (states : States) : Prop :=
  (s.document.merge states).same s.document = true ∧
    (s.hash.isSome = true ∨ (s.document.merge states).isEmpty = true)

/-- Nothing has to be written because the bytes are there. -/
def Written (s : Snapshot δ) (states : States) : Prop :=
  s.hash = some (Digest.ofBytes (s.document.merge states).serialize)

instance (s : Snapshot δ) (states : States) : Decidable (s.Redundant states) :=
  inferInstanceAs (Decidable (_ ∧ _))

instance (s : Snapshot δ) (states : States) : Decidable (s.Written states) :=
  inferInstanceAs (Decidable (_ = _))

/-- **Staging** gives the one write there can be, unless nothing has to be
written. -/
theorem stage_eq (s : Snapshot δ) (states : States) :
    s.stage states
      = if s.Redundant states ∨ s.Written states then none else some (s.draft states) := by
  unfold stage
  simp only []
  by_cases hsame : s.Redundant states
  · rw [if_pos (Or.inl hsame), if_pos]
    simpa [Redundant] using hsame
  · have hnot : ¬ ((s.document.merge states).same s.document
        && (s.hash.isSome || (s.document.merge states).isEmpty)) = true := by
      simpa [Redundant] using hsame
    rw [if_neg hnot]
    by_cases hbytes : s.Written states
    · rw [if_pos (Or.inr hbytes)]
      exact if_pos hbytes
    · rw [if_neg (not_or.mpr ⟨hsame, hbytes⟩)]
      exact if_neg hbytes

omit [DecidableEq δ] in
/-- A document that stays equal need not be written: where there is no unit, it
is empty and stays so. -/
theorem redundant_of_same {content : Option Bytes} (hhash : s.hash = content.map Digest.ofBytes)
    (habsent : content = none → s.document = [])
    (hsame : (s.document.merge states).same s.document = true) : s.Redundant states := by
  refine ⟨hsame, ?_⟩
  cases hcontent : content with
  | some bytes =>
    refine Or.inl ?_
    rw [hhash, hcontent]
    rfl
  | none =>
    refine Or.inr ?_
    rw [habsent hcontent] at hsame ⊢
    cases hmerged : Document.merge [] states with
    | nil => rfl
    | cons f d =>
      rw [hmerged] at hsame
      cases hsame

theorem stage_eq_none_iff : s.stage states = none ↔ s.Redundant states ∨ s.Written states := by
  rw [stage_eq]
  split
  · rename_i hnothing
    exact ⟨fun _ => hnothing, fun _ => rfl⟩
  · rename_i hdue
    exact ⟨fun h => absurd h (Option.some_ne_none _), fun h => absurd h hdue⟩

theorem stage_eq_some {d : Draft δ} (h : s.stage states = some d) :
    d = s.draft states ∧ ¬ s.Redundant states ∧ ¬ s.Written states := by
  rw [stage_eq] at h
  split at h
  · cases h
  · rename_i hnot
    exact ⟨(Option.some.inj h).symm, not_or.mp hnot⟩

/-- **Bringing a write up to date** leaves it alone if it is based on what is
remembered, and else stages its states again. -/
theorem rebase_eq (s : Snapshot δ) (d : Draft δ) :
    s.rebase d = if s.hash = d.base then some d else s.stage d.states := rfl

end Snapshot

/-! ## Drafts that are what they say -/

/-- A draft whose bytes and digest are those of its document. -/
structure Draft.Sound (d : Draft δ) : Prop where
  document : Sorted d.document
  states : Sorted d.states
  bytes : d.bytes = d.document.serialize
  hash : d.hash = Digest.ofBytes d.bytes

omit [DecidableEq δ] in
theorem Snapshot.sound_draft {s : Snapshot δ} {states : States} (hs : Sorted s.document)
    (hstates : Sorted states) : (s.draft states).Sound :=
  ⟨Document.sorted_merge hs states, hstates, rfl, rfl⟩

theorem Snapshot.sound_of_stage {s : Snapshot δ} {states : States} {d : Draft δ}
    (hs : Sorted s.document) (hstates : Sorted states) (h : s.stage states = some d) : d.Sound := by
  rw [(stage_eq_some h).1]
  exact sound_draft hs hstates

/-- A sound write that is brought up to date is sound. -/
theorem Snapshot.sound_of_rebase {s : Snapshot δ} {d d' : Draft δ} (hs : Sorted s.document)
    (hd : d.Sound) (h : s.rebase d = some d') : d'.Sound := by
  rw [rebase_eq] at h
  split at h
  · rw [← Option.some.inj h]
    exact hd
  · exact sound_of_stage hs hd.states h

end ScopedState
