/-
`Proofs/Workspace/Again.lean` -- saving again.

A save stages for every scope what is not in its units yet. If nothing has
changed since the last save, and the last save went well, one should think that
nothing is left to stage. That is so when the scopes of the tree agree: where two
of them keep a component of one name in one unit, their states are the same.
Then what one of them writes is what the other has to say, and in the end every
unit says what all scopes have to say (`Turn.nothing_left`).

Scopes that do not agree overwrite each other's entry. Each save then leaves the
state of the one that was written last, and the next save begins with the other
one. Names are a matter of each scope, and nobody looks after two scopes that
use the same one in a unit.
-/
import ScopedState.Proofs.Storage.Settling
import ScopedState.Proofs.Workspace.Save
import ScopedState.Proofs.Workspace.Sourced
set_option autoImplicit false

namespace ScopedState

open Bindings (Sorted get?)

variable {β δ : Type}

/-! ## 1. What a scope stages, in another vault -/

namespace ScopeSession

variable {macros : Option MacroTable} {v v' : Vault β δ}

end ScopeSession

namespace Workspace

section Revaulting

variable {w : Workspace β δ} {v : Vault β δ}

/-- The states at a location are those of the components. -/
theorem statesAt_withVault (hunit : v.unit? = w.vault.unit?)
    (hcomponents : v.components = w.vault.components) (l : Location) (id : ScopeId) :
    Workspace.statesAt { w with vault := v } l id = w.statesAt l id := by
  have hlocation : v.location? = w.vault.location? := by
    funext k
    rw [Vault.location?, hunit]
    rfl
  have hcomponent : v.component? = w.vault.component? := by
    funext id
    rw [Vault.component?, hcomponents]
    rfl
  unfold statesAt storedState
  simp only [hlocation, hcomponent]
  rfl

end Revaulting

section Saving

variable [Backing β] [DecidableEq δ] [Digest δ] {w : Workspace β δ} {root : ScopeId}

/-- **Staging with nothing to write** goes well, and there is nothing to carry out. -/
theorem staging_of_nothing_wanted
    (h : ∀ id ∈ (w.tree root).scopes,
      (w.openScope id).layout.all (ScopeSession.tells (w.openScope id).macros w.vault) = true ∧
        (w.openScope id).wanted w.vault = []) :
    ((w.startSave root).save w.vault).outcome = .ok () ∧
      ((w.startSave root).save w.vault).readOnly = [] ∧
      ((w.startSave root).save w.vault).world = w.vault ∧
      (w.stagedOn root w.vault).writes = [] ∧
      ((w.stagedOn root w.vault).finish w.vault).outcome = .ok () ∧
      ((w.stagedOn root w.vault).finish w.vault).world = w.vault := by
  have hdue : ∀ id ∈ (w.tree root).scopes, ((w.openScope id).save w.vault).outcome = .ok () ∧
      ((w.openScope id).save w.vault).readOnly = [] ∧ (w.openScope id).due w.vault = [] := by
    intro id hid
    have hopen := w.openScope_isOpen id
    obtain ⟨htells, hwanted⟩ := h id hid
    obtain ⟨_, _, houtcome, htargets⟩ := ScopeSession.save_of_open hopen w.vault
    refine ⟨houtcome.mpr htells, ?_, ?_⟩
    · rw [htargets htells, hwanted]
      rfl
    · rw [ScopeSession.due, if_pos htells, hwanted]
      rfl
  have hwrites : (w.stagedOn root w.vault).writes = [] := by
    rw [(w.stagedOn_spec root w.vault).2, List.flatMap_eq_nil_iff]
    intro id hid
    rw [(hdue id ((ScopeTree.mem_postorder _ id).mp hid)).2.2]
    rfl
  obtain ⟨hworld, houtcome, hreadOnly⟩ := w.startSave_save root
  have hready := (w.stagedOn_spec root w.vault).1.ready rfl
  refine ⟨houtcome.mpr fun id hid => (hdue id hid).1, hreadOnly.mpr fun id hid => (hdue id hid).2.1,
    hworld, hwrites, (finish_eq_ok_iff hready w.vault).mpr ?_, ?_⟩
  · -- There are no turns, so none is refused.
    rw [hwrites]
    exact fun turn hturn => absurd hturn List.not_mem_nil
  · rw [(SessionTree.finish_spec (w.stagedOn root w.vault) hready w.vault).1, hwrites]
    rfl

/-- **Staging that has gone well and left nothing to carry out** has found nothing to
write. -/
theorem nothing_wanted_of_staging (hok : ((w.startSave root).save w.vault).outcome = .ok ())
    (hreadOnly : ((w.startSave root).save w.vault).readOnly = [])
    (hwrites : (w.stagedOn root w.vault).writes = []) :
    ∀ id ∈ (w.tree root).scopes, (w.openScope id).wanted w.vault = [] := by
  intro id hid
  obtain ⟨_, houtcome, hnone⟩ := w.startSave_save root
  rw [(w.stagedOn_spec root w.vault).2, List.flatMap_eq_nil_iff] at hwrites
  have hdue := List.map_eq_nil_iff.mp (hwrites id ((ScopeTree.mem_postorder _ id).mpr hid))
  rw [← ScopeSession.due_eq_wanted (w.openScope_isOpen id) (houtcome.mp hok id hid)
    (hnone.mp hreadOnly id hid)]
  exact hdue

end Saving

/-! ## 2. Scopes that agree -/

/-- No two scopes of a tree hold different states under one name in one unit. -/
def Unanimous (w : Workspace β δ) (root : ScopeId) : Prop :=
  ∀ l, Consistent ((w.tree root).scopes.map (w.statesAt l))

section Agreeing

variable [Backing β] [LawfulBacking β] [DecidableEq δ] [Digest δ] {w : Workspace β δ}
  {root id : ScopeId} {l : Location} {k : StorageId} {s : Storage δ} {content : Option Bytes}

/-- A unit as it is remembered, with the content that it was last loaded from or
written as, and the names that the scopes of a tree have there. -/
def rememberedAt (w : Workspace β δ) (root : ScopeId) (l : Location) (content : Option Bytes)
    (d : Document) : Origin :=
  { content
    document := d
    owned := fun n => ∃ id ∈ (w.tree root).scopes, (get? (w.statesAt l id) n).isSome = true }

omit [Backing β] [LawfulBacking β] [DecidableEq δ] [Digest δ] in
/-- What a scope has to say is about names that the tree has there. -/
theorem owned_statesAt (hkept : w.Kept) (root : ScopeId) (l : Location) (content : Option Bytes)
    (d : Document) : ∀ states ∈ (w.tree root).scopes.map (w.statesAt l), Sorted states ∧
      ∀ n, (get? states n).isSome = true → (w.rememberedAt root l content d).owned n := by
  intro states hstates
  obtain ⟨j, hj, rfl⟩ := List.mem_map.mp hstates
  exact ⟨sorted_statesAt hkept l j, fun n hn => ⟨j, hj, hn⟩⟩

/-- The units of a tree are plain as they are remembered: the content that a unit
was last loaded from or written as is not the text of some document that the
scopes might have written and that has another text than the one remembered. -/
def RemembersPlain (w : Workspace β δ) (root : ScopeId) : Prop :=
  ∀ id l k, w.Maps root id l k → ∀ content, (w.vault.snapshot k).Describes content →
    (w.rememberedAt root l content (w.vault.snapshot k).document).Plain

omit [LawfulBacking β] in
/-- The writes for a storage were staged on what is remembered of its unit, and had
to be; the others are for other units. -/
theorem initial_of_write (h : w.Stages root) (hmaps : w.Maps root id s.unit.location k)
    (hs : w.vault.storage? k = some s) (hdescribes : s.snapshot.Describes content)
    {x : String × StagedWrite δ} (hx : x ∈ (w.stagedOn root w.vault).writes) :
    (x.2.storage = k → x.2.unit = s.unit ∧
        x.2.draft.Initial (w.rememberedAt root s.unit.location content s.snapshot.document)
          ((w.tree root).scopes.map (w.statesAt s.unit.location))) ∧
      (x.2.storage ≠ k → x.2.unit.location ≠ s.unit.location) := by
  obtain ⟨hmine, hother⟩ := write_for h hmaps hs hx
  refine ⟨fun hk => ?_, hother⟩
  obtain ⟨j, draft, hmaps', hstage, hx'⟩ := hmine hk
  obtain ⟨rfl, _, hdue⟩ := Snapshot.stage_eq_some hstage
  have himages : Images (w.rememberedAt root s.unit.location content s.snapshot.document) false
      content s.snapshot := (Tracks.of_describes hdescribes _).images
  rw [hx']
  refine ⟨rfl, himages.stage (sorted_statesAt h.kept _ j) (fun n hn => ⟨j, hmaps'.1, hn⟩) hstage,
    List.mem_map_of_mem hmaps'.1, fun hcontent => hdue ?_⟩
  have hcontent' : content
      = some (s.snapshot.document.merge (w.statesAt s.unit.location j)).serialize := hcontent
  rw [Snapshot.Written, hdescribes.hash, hcontent']
  rfl

/-- **After a save a unit has nothing left to be written**, for any scope of the
tree. -/
theorem nothing_left (h : w.Stages root) (hsourced : w.vault.Sourced)
    (hfaithful : Digest.Faithful δ) (hunanimous : w.Unanimous root)
    (hok : ∀ turn ∈ Turn.all (w.stagedOn root w.vault).writes w.vault, turn.answer = .ok ())
    (hmaps : w.Maps root id l k) (hplain : ∀ content, (w.vault.snapshot k).Describes content →
      (w.rememberedAt root l content (w.vault.snapshot k).document).Plain) :
    ∃ s, (Turn.perform (w.stagedOn root w.vault).writes w.vault).storage? k = some s ∧
      ∀ j ∈ (w.tree root).scopes, s.snapshot.stage (w.statesAt l j) = none := by
  obtain ⟨u, hu, _⟩ := Option.map_eq_some_iff.mp (hmaps.location h.kept)
  obtain ⟨s, hs, _⟩ := Vault.unit?_eq_some hu
  obtain rfl := unit_of_maps h.kept hmaps hs
  obtain ⟨content, hdescribes⟩ := hsourced k s hs
  rw [Vault.snapshot_eq hs] at hplain
  have himages : Images (w.rememberedAt root s.unit.location content s.snapshot.document) false
      content s.snapshot := (Tracks.of_describes hdescribes _).images
  have hall := owned_statesAt h.kept root s.unit.location content s.snapshot.document
  have hcovered : ∀ states ∈ (w.tree root).scopes.map (w.statesAt s.unit.location),
      s.snapshot.stage states = none ∨ states ∈ statesFor k (w.stagedOn root w.vault).writes := by
    intro states hstates
    obtain ⟨j, hj, rfl⟩ := List.mem_map.mp hstates
    exact stage_or_write h hmaps hs hdescribes hj
  obtain ⟨s', hs', _, hnothing⟩ := Turn.nothing_left hfaithful (hplain content hdescribes)
    hdescribes.absent (hunanimous s.unit.location) hall hs himages
    (fun x hx => initial_of_write h hmaps hs hdescribes hx) hcovered hok
  exact ⟨s', hs', fun j hj => hnothing _ (List.mem_map_of_mem hj)⟩

end Agreeing

/-! ## 3. Two scopes with a component of one name -/

section Names

variable {w : Workspace β δ} {root id : ScopeId}

/-- A unit that was not there is plain as it is remembered. -/
theorem remembersPlain_of_absent [Digest δ]
    (h : ∀ s ∈ w.vault.storages, s.snapshot.hash = none) (root : ScopeId) :
    w.RemembersPlain root := by
  intro id l k hmaps content hdescribes
  have hhash : (w.vault.snapshot k).hash = none := by
    rw [Vault.snapshot]
    cases hs : w.vault.storage? k with
    | none => rfl
    | some s => exact h s (List.mem_of_getElem? hs)
  rw [hdescribes.hash, Option.map_eq_none_iff] at hhash
  exact Origin.Plain.of_absent hhash

end Names

end Workspace

end ScopedState
