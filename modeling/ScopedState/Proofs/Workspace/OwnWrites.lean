/-
`Proofs/Workspace/OwnWrites.lean` -- what scopes write is not news to them.

In a workspace of one caller every storage in use describes its unit, whatever
has been refused on the way. So a unit that was written by some scope of the
tree has the digest that the storage of the unit remembers, in whatever session
and through whatever scope it was written, and an analysis passes over it. What
an analysis can still run into is a unit that it may not read.
-/
import ScopedState.Proofs.Session.Analysis
import ScopedState.Proofs.Workspace.Commit
import ScopedState.Proofs.Workspace.Coherent
set_option autoImplicit false

namespace ScopedState

open Bindings (get?)

variable {β δ : Type}

namespace Workspace

open SessionTree (Affected)

/-- The session of one scope is at hand: it is a part of an open session, or a
scope in use could be opened with it now. -/
def AtHand (w : Workspace β δ) (s : ScopeSession δ) : Prop :=
  (∃ e ∈ w.sessions, s ∈ e.2.parts) ∨ ∃ id ∈ w.live, s = w.openScope id

variable {w : Workspace β δ} {s : ScopeSession δ}

/-- A session that is at hand is about storages in use. -/
theorem AtHand.inUse (h : w.AtHand s) {slot : Slot} (hslot : slot ∈ s.layout) :
    w.inUse slot.storage = true := by
  rcases h with ⟨e, he, hs⟩ | ⟨id, hid, rfl⟩
  · exact (inUse_iff w _).mpr (Or.inr ⟨e, he, s, hs, Or.inl ⟨slot, hslot, rfl⟩⟩)
  · exact inUse_of_openScope hid hslot

/-- The parts of a session that is opened now are at hand. -/
theorem atHand_startSave (h : w.Closed) {id : ScopeId} (hid : id ∈ w.live) :
    ∀ s ∈ (w.startSave id).parts, w.AtHand s := by
  intro s hs
  rw [startSave, (openTree_spec w (w.tree id)).2] at hs
  obtain ⟨j, hj, rfl⟩ := List.mem_map.mp hs
  exact Or.inr ⟨j, h.tree hid j ((ScopeTree.mem_postorder _ j).mp hj), rfl⟩

section Alone

variable [Backing β] [LawfulBacking β] [DecidableEq δ] [Digest δ]

/-- **What is remembered of a unit in use is what is on disk, and no write of
one's own is reported.** One caller has brought a workspace about, and the store
may have refused any reads and writes.

A storage in use remembers no digest exactly when its unit is not there;
otherwise it remembers the digest of the unit's bytes, and the document that
these were parsed into or serialized from. So a session that is at hand, asked
about any changes at all, has nothing to reload, and nothing changes by its
being asked. Only if some unit it should compare cannot be read it says that it
cannot tell.

The store is lawful; for files see `nothing_reloadable_on_files`. -/
theorem own_writes_unreported (hw : w.Reachable Action.Alone) :
    (∀ k s, w.inUse k = true → w.vault.storage? k = some s →
      (s.snapshot.hash = none ↔ w.vault.contents s.unit.location = none) ∧
        ∀ bytes, w.vault.contents s.unit.location = some bytes →
          s.snapshot.hash = some (Digest.ofBytes bytes) ∧
            ((∃ unit, Document.parse unit bytes = .ok s.snapshot.document) ∨
              bytes = s.snapshot.document.serialize)) ∧
      ∀ t : SessionTree (ScopeSession δ), (∀ s ∈ t.parts, w.AtHand s) → ∀ changes,
        (t.analyze changes w.vault = (.reloadable [], w.vault) ∧
            ∀ slot, Affected changes t.parts slot → w.vault.Readable slot.storage) ∨
          (t.analyze changes w.vault = (.unreloadable, w.vault) ∧
            ∃ slot, Affected changes t.parts slot ∧ ¬ w.vault.Readable slot.storage) := by
  obtain ⟨_, _, hcoherent⟩ := hw.coherent
  refine ⟨fun k s hk hs => ?_, fun t ht changes => ?_⟩
  · have hdescribes := hcoherent.describes k s hk hs
    refine ⟨?_, fun bytes hbytes => ⟨?_, hdescribes.present bytes hbytes⟩⟩
    · rw [hdescribes.hash, Option.map_eq_none_iff]
    · rw [hdescribes.hash, hbytes]
      rfl
  · refine SessionTree.analyze_of_hashes changes ?_
    rintro slot ⟨s, hs, hslot, _⟩ st hst
    exact (hcoherent.describes _ st ((ht s hs).inUse hslot) hst).hash

end Alone

/-! ## A write that was refused beside one that was not -/

/-- A scope and one below it are saved step by step in a session, and the unit of
the one below is refused in the last step. -/
def halfSavedEvents : List (Action Faulty) :=
  [.addScope "root" none 0, .addScope "m" none 0, .attach 0, .list 0 1,
    .addComponent { name := "a" }, .addComponent { name := "b" },
    .register 0 0 "a" "/a.json", .register 1 1 "b" "/b.json",
    .edit 0 fun c => c.set (.integer 1), .edit 1 fun c => c.set (.integer 2),
    .openSession "s" 0, .saveSession "s",
    .disturb fun f => f.refuseWrites ⟨"/b.json"⟩ true, .finishSession "s"]

/-- What that leads to. -/
def halfSaved : Workspace Faulty Bytes := (start {}).run halfSavedEvents

theorem halfSaved_reachable : halfSaved.Reachable Action.Alone := by
  refine ⟨{}, steps_run (fun a ha => ?_) (by decide +kernel)⟩
  simp only [halfSavedEvents, List.mem_cons, List.not_mem_nil, or_false] at ha
  rcases ha with rfl | rfl | rfl | rfl | rfl | rfl | rfl | rfl | rfl | rfl | rfl | rfl | rfl | rfl
  case inr.inr.inr.inr.inr.inr.inr.inr.inr.inr.inr.inr.inl => exact fun b l => rfl
  all_goals trivial

/-- The unit above has been written and the one below has not, and a session over
both reports neither. -/
theorem half_saved_unreported :
    halfSaved.vault.contents (Path.location ⟨"/a.json"⟩)
        = some (Document.serialize [("a", .integer 1)]) ∧
      halfSaved.vault.contents (Path.location ⟨"/b.json"⟩) = none ∧
      (halfSaved.startSave 0).analyze
          (ChangeSet.ofList [⟨⟨"/a.json"⟩, none⟩, ⟨⟨"/b.json"⟩, none⟩]) halfSaved.vault
        = (.reloadable [], halfSaved.vault) := by
  have hclosed := halfSaved_reachable.coherent.2.1
  have hlive : 0 ∈ halfSaved.live := by decide +kernel
  refine ⟨by decide +kernel, by decide +kernel, ?_⟩
  rcases (own_writes_unreported halfSaved_reachable).2 (halfSaved.startSave 0)
    (atHand_startSave hclosed hlive)
    (ChangeSet.ofList [⟨⟨"/a.json"⟩, none⟩, ⟨⟨"/b.json"⟩, none⟩]) with ⟨h, _⟩ | ⟨_, slot, _, hnot⟩
  · exact h
  · -- The store refuses writes only.
    exact absurd (fun s _ => rfl) hnot

end Workspace

end ScopedState
