/-
`Proofs/Workspace/ReadOnly.lean` -- read-only units end a save.

A scope must write a unit when the states of its components there make a
document that is not equal to the remembered one, and the text of that document
is not what has been remembered either. If the unit is read-only the write is
blocked, and a save with a blocked write is given up before anything has been
written: the session is reset, and the units are reported, for every scope in
the order in which scopes are staged and for one scope in the order of the
units.

A component that does not give its state hides what its scope has to say about
the units from there on. So the report is complete when no component fails, and
otherwise has a part of the blocked writes of each scope, from the front. It
takes precedence over the failure of the component.
-/
import Mathlib.Data.List.Basic
import ScopedState.Backing.Memory
import ScopedState.Proofs.Session.Reports
import ScopedState.Proofs.Workspace.Commit
import ScopedState.Proofs.Workspace.Sourced
set_option autoImplicit false

namespace ScopedState

open Bindings (Sorted get?)

variable {β δ : Type}

namespace Workspace

/-! ## 1. The order of staging -/

open SessionTree (stagingOrder stagingOrderAll)

mutual

/-- **A session is staged** in the order in which the tree lists its scopes. -/
theorem stagingOrder_openTree (w : Workspace β δ) : ∀ t : ScopeTree,
    (w.openTree t).stagingOrder = t.scopes.map w.openScope
  | .node id children => by
    rw [openTree, stagingOrder, stagingOrder, stagingOrder_openAll w children, ScopeTree.scopes,
      List.map_cons]
    rfl

theorem stagingOrder_openAll (w : Workspace β δ) : ∀ ts : List ScopeTree,
    stagingOrderAll (openAll w ts) = (ScopeTree.scopesOfAll ts).map w.openScope
  | [] => rfl
  | t :: ts => by
    rw [openAll, stagingOrderAll, stagingOrder_openTree w t, stagingOrder_openAll w ts,
      ScopeTree.scopesOfAll, List.map_append]

end

mutual

/-- A session that is opened is layered as the tree is. -/
theorem layered_openTree (w : Workspace β δ) : ∀ t : ScopeTree, (w.openTree t).Layered
  | .node _ children => ⟨⟨_, rfl⟩, layered_openAll w children⟩

theorem layered_openAll (w : Workspace β δ) : ∀ ts : List ScopeTree,
    SessionTree.LayeredAll (openAll w ts)
  | [] => trivial
  | t :: ts => ⟨layered_openTree w t, layered_openAll w ts⟩

end

variable [Backing β] [DecidableEq δ] [Digest δ] {w : Workspace β δ} {root id : ScopeId}
  {x : StagedWrite δ} {units : List Path}

/-! ## 2. What a scope must write -/

/-- **A scope must write** a unit that it maps: with the states of its components
there the document comes out different from the remembered one, and so does its
text. -/
def MustWrite (w : Workspace β δ) (id : ScopeId) (x : StagedWrite δ) : Prop :=
  ∃ s l u states, w.scope? id = some s ∧ get? s.storages l = some (u, x.storage) ∧
    ScopeSession.collect (s.substitutor.map Substitutor.table) w.vault
      (w.slotAt s (u, x.storage)).components = .ok states ∧
    w.vault.unit? x.storage = some x.unit ∧
    x.draft = (w.vault.snapshot x.storage).draft states ∧
    x.draft.document.same (w.vault.snapshot x.storage).document = false ∧
    (w.vault.snapshot x.storage).hash ≠ some x.draft.hash

/-- The writes of a scope for units that cannot be written. -/
def blocked (w : Workspace β δ) (id : ScopeId) : List (StagedWrite δ) :=
  (w.openScope id).blocked w.vault

/-- Whether every component of a tree gives its state. -/
def NoneFails (w : Workspace β δ) (root : ScopeId) : Prop :=
  ∀ id ∈ (w.tree root).scopes, ∀ s, w.scope? id = some s → ∀ c ∈ s.components, ∀ component,
    w.vault.component? c.2.component = some component → component.failing = false

omit [Backing β] in
/-- **Staging gives a write** when both the document and its text are different
from what is remembered. -/
theorem stage_eq_some_iff (h : w.vault.Sourced) {k : StorageId} {states : States} :
    w.vault.stage k states = some x ↔
      x.storage = k ∧ w.vault.unit? k = some x.unit ∧
        x.draft = (w.vault.snapshot k).draft states ∧
        x.draft.document.same (w.vault.snapshot k).document = false ∧
        (w.vault.snapshot k).hash ≠ some x.draft.hash := by
  cases hs : w.vault.storage? k with
  | none =>
    rw [Vault.stage, hs, Vault.unit?, hs]
    simp
  | some s =>
    obtain ⟨content, hdescribes⟩ := h k s hs
    rw [Vault.stage, hs, Vault.snapshot_eq hs, Vault.unit?_of_storage? hs]
    constructor
    · intro hstage
      obtain ⟨draft, hdraft, rfl⟩ := Option.map_eq_some_iff.mp hstage
      obtain ⟨rfl, hredundant, hwritten⟩ := Snapshot.stage_eq_some hdraft
      refine ⟨rfl, rfl, rfl, ?_, hwritten⟩
      -- A document that stays equal would have been redundant: its unit is there, or it is empty.
      by_contra hsame
      exact hredundant (Snapshot.redundant_of_same hdescribes.hash hdescribes.absent
        (Bool.not_eq_false _ ▸ hsame))
    · obtain ⟨storage, unit, draft⟩ := x
      rintro ⟨rfl, hunit, hdraft, hsame, hhash⟩
      have hunit' : s.unit = unit := Option.some.inj hunit
      have hdraft' : draft = s.snapshot.draft states := hdraft
      subst hunit' hdraft'
      have hdue : ¬ (s.snapshot.Redundant states ∨ s.snapshot.Written states) := by
        rintro (hredundant | hwritten)
        · exact Bool.noConfusion (hsame.symm.trans hredundant.1)
        · exact hhash hwritten
      simp only [Snapshot.stage_eq, if_neg hdue, Option.map_some]

omit [Backing β] in
/-- **What a scope wants to write** is what it must write. -/
theorem mem_wanted_iff (hkept : w.Kept) (hsourced : w.vault.Sourced) :
    x ∈ (w.openScope id).wanted w.vault ↔ w.MustWrite id x := by
  unfold ScopeSession.wanted openScope MustWrite
  cases hs : w.scope? id with
  | none => simp
  | some s =>
    simp only [layout_eq, List.mem_filterMap, List.mem_map]
    constructor
    · rintro ⟨_, ⟨⟨l, u, k⟩, hmem, rfl⟩, hwrite⟩
      obtain ⟨states, hcollect, hstage⟩ := ScopeSession.slotWrite_eq_some hwrite
      obtain ⟨hk, hrest⟩ := (stage_eq_some_iff hsourced).mp hstage
      have hstorage : x.storage = k := hk
      subst hstorage
      have hl := (hkept.scope hs).storages.get?_of_mem hmem
      exact ⟨s, l, u, states, rfl, hl, hcollect, hrest⟩
    · rintro ⟨s', l, u, states, hs', hl, hcollect, hrest⟩
      obtain rfl := Option.some.inj hs'
      refine ⟨_, ⟨_, Bindings.mem_of_get? hl, rfl⟩, ?_⟩
      rw [ScopeSession.slotWrite, ScopeSession.stageSlot, hcollect]
      exact (stage_eq_some_iff hsourced).mpr ⟨rfl, hrest⟩

/-- **The blocked writes of a scope** are those it must make and cannot. -/
theorem mem_blocked_iff (hkept : w.Kept) (hsourced : w.vault.Sourced) :
    x ∈ w.blocked id ↔ w.MustWrite id x ∧ Backing.isWritable w.vault.backing x.unit = false := by
  rw [blocked, ScopeSession.blocked, List.mem_filter, mem_wanted_iff hkept hsourced,
    Bool.not_eq_true', ScopeSession.writable]

omit [Backing β] [DecidableEq δ] [Digest δ] in
/-- It is enough that no component at all fails. -/
theorem noneFails_of_components (h : ∀ c ∈ w.vault.components, c.failing = false)
    (root : ScopeId) : w.NoneFails root :=
  fun _ _ _ _ _ _ component hcomponent => h component (List.mem_of_getElem? hcomponent)

omit [Backing β] [DecidableEq δ] [Digest δ] in
/-- Where no component fails, every unit of a scope can be staged. -/
theorem NoneFails.tells (h : w.NoneFails root) (hid : id ∈ (w.tree root).scopes) :
    (w.openScope id).layout.all
      (ScopeSession.tells (w.openScope id).macros w.vault) = true := by
  unfold openScope
  cases hs : w.scope? id with
  | none => rfl
  | some s =>
    simp only [layout_eq, List.all_eq_true, List.mem_map]
    rintro slot ⟨e, _, rfl⟩
    refine ScopeSession.tells_of_components fun c hc component hcomponent => ?_
    obtain ⟨entry, hentry, rfl⟩ := List.mem_map.mp hc
    exact h id hid s hs entry (List.mem_filter.mp hentry).1 component hcomponent

/-! ## 3. What a save reports -/

/-- **Staging a tree** reports, for one scope after the other, the blocked writes
that it meets. -/
theorem startSave_readOnly (w : Workspace β δ) (root : ScopeId) :
    ((w.startSave root).save w.vault).readOnly.map ReadOnlyTarget.unit
      = (w.tree root).scopes.flatMap fun id =>
          ((w.openScope id).met w.vault).map StagedWrite.unit := by
  have huniform := (openTree_spec w (w.tree root)).1
  rw [startSave, SessionTree.save_readOnly (p := .open) rfl huniform, stagingOrder_openTree,
    List.flatMap_map, List.map_flatMap]
  simp only [List.map_map, Function.comp_def]

/-- **A report ends the save**, and nothing has changed. -/
theorem save_of_readOnly (h : ((w.startSave root).save w.vault).readOnly ≠ []) :
    w.save root = (.error (.readOnly
      (((w.startSave root).save w.vault).readOnly.map ReadOnlyTarget.unit)), w) := by
  have huniform : (w.startSave root).Uniform .open := (openTree_spec w (w.tree root)).1
  obtain ⟨hworld, hcollecting, _⟩ := SessionTree.save_spec (p := .open) rfl huniform w.vault
  obtain ⟨hreset, _⟩ := SessionTree.reset_spec (p := .collecting) rfl hcollecting w.vault
  have hok := SessionTree.reset_ok (p := .collecting) rfl hcollecting w.vault
  have hnot : ((w.startSave root).save w.vault).readOnly.isEmpty = false := by
    rw [← Bool.not_eq_true, List.isEmpty_iff]
    exact h
  unfold save
  simp only [hnot, Bool.false_eq_true, if_false, hworld, hreset, hok]
  rfl

/-- **Without a report** a save does not fail for read-only units: staging and
finishing fail in other ways. -/
theorem save_of_nothing_readOnly (h : ((w.startSave root).save w.vault).readOnly = []) :
    (w.save root).1 ≠ .error (.readOnly units) := by
  have huniform := (openTree_spec w (w.tree root)).1
  obtain ⟨_, hcollecting, _⟩ := SessionTree.save_spec (p := .open) rfl huniform w.vault
  intro hsave
  unfold save at hsave
  simp only [h, List.isEmpty_nil, if_true] at hsave
  rcases SessionTree.firstFailure_eq_error hsave with hstaging | hfinishing
  · obtain ⟨scope, reason, he⟩ := SessionTree.save_failure (p := .open) rfl huniform hstaging
    cases he
  · rcases SessionTree.finish_failure (p := .collecting) rfl hcollecting _ hfinishing with
      ⟨scope, unit, reason, he⟩ | ⟨first, suppressed, he⟩
    · cases he
    · cases he

/-! ## 4. Saving -/

/-- **Read-only units end a save as a whole.** A save that fails for read-only
units has changed nothing. The units it reports are, for one scope of the tree
after the other, those of its blocked writes, or of the first of them if a
component does not give its state. If no component fails, a save with a blocked
write fails in this way.

The blocked writes of a scope stand in the order of the units, and they are the
writes that the scope must make, for units that the store calls not writable. -/
theorem readOnly_aborts_save (hw : w.Reachable Action.Any) (root : ScopeId) :
    (∀ units, (w.save root).1 = .error (.readOnly units) →
      (w.save root).2 = w ∧
        ∃ reported : ScopeId → List (StagedWrite δ),
          units = (w.tree root).scopes.flatMap (fun id => (reported id).map StagedWrite.unit) ∧
            (∀ id, reported id <+: w.blocked id) ∧
            (w.NoneFails root → ∀ id ∈ (w.tree root).scopes, reported id = w.blocked id)) ∧
      (w.NoneFails root → (∃ id ∈ (w.tree root).scopes, w.blocked id ≠ []) →
        w.save root = (.error (.readOnly ((w.tree root).scopes.flatMap fun id =>
          (w.blocked id).map StagedWrite.unit)), w)) ∧
      ∀ id, (w.blocked id).Pairwise (fun x y => x.unit.location < y.unit.location) ∧
        ∀ x, x ∈ w.blocked id ↔
          w.MustWrite id x ∧ Backing.isWritable w.vault.backing x.unit = false := by
  have hkept := hw.kept
  have hmet : ∀ id ∈ (w.tree root).scopes, w.NoneFails root →
      (w.openScope id).met w.vault = w.blocked id :=
    fun id hid hnone => ScopeSession.met_eq_blocked (hnone.tells hid)
  refine ⟨fun units hunits => ?_, fun hnone hblocked => ?_, fun id => ⟨?_, fun x => ?_⟩⟩
  · by_cases hreport : ((w.startSave root).save w.vault).readOnly = []
    · exact absurd hunits (save_of_nothing_readOnly hreport)
    · have hsave := save_of_readOnly hreport
      rw [hsave] at hunits ⊢
      refine ⟨rfl, fun id => (w.openScope id).met w.vault, ?_, fun id => ?_, fun hnone id hid => ?_⟩
      · have hlist := Failure.readOnly.inj (Except.error.inj hunits)
        rw [← hlist, startSave_readOnly]
      · exact (w.openScope id).met_prefix_blocked w.vault
      · exact hmet id hid hnone
  · -- What is met is all that is blocked, so there is a report.
    have hreported : ((w.startSave root).save w.vault).readOnly.map ReadOnlyTarget.unit
        = (w.tree root).scopes.flatMap fun id => (w.blocked id).map StagedWrite.unit := by
      rw [startSave_readOnly]
      refine List.flatMap_congr fun id hid => ?_
      rw [hmet id hid hnone]
    have hreport : ((w.startSave root).save w.vault).readOnly ≠ [] := by
      intro hnothing
      obtain ⟨id, hid, hne⟩ := hblocked
      rw [hnothing, List.map_nil, eq_comm, List.flatMap_eq_nil_iff] at hreported
      exact hne (List.map_eq_nil_iff.mp (hreported id hid))
    rw [save_of_readOnly hreport, hreported]
  · exact (wanted_ascending hkept (Vault.Keeps.refl _) id).filter _
  · exact mem_blocked_iff hkept hw.sourced.vault

/-- A scope and one below it, with a new value in a unit of each; that of the
scope above is read-only. -/
def parentBlocked : Workspace Memory Bytes :=
  (start {}).run
    [.addScope "root" none 0, .addScope "m" none 0, .attach 0, .list 0 1,
      .addComponent { name := "a" }, .addComponent { name := "b" },
      .register 0 0 "a" "/a.json", .register 1 1 "b" "/b.json",
      .edit 0 fun c => c.set (.integer 1), .edit 1 fun c => c.set (.integer 2),
      .disturb fun m => m.setReadOnly ⟨"/a.json"⟩ true]

/-- The scope below could have been written, and is not. -/
theorem save_with_parent_blocked :
    parentBlocked.save 0 = (.error (.readOnly [⟨"/a.json"⟩]), parentBlocked) := by
  have hreachable : parentBlocked.Reachable Action.Any :=
    ⟨{}, steps_run (fun _ _ => trivial) (by decide +kernel)⟩
  obtain ⟨_, hblocked, _⟩ := readOnly_aborts_save hreachable 0
  have hnone : parentBlocked.NoneFails 0 := noneFails_of_components (by decide +kernel) 0
  have hlength : (parentBlocked.blocked 0).length = 1 := by decide +kernel
  have hfirst : ∃ id ∈ (parentBlocked.tree 0).scopes, parentBlocked.blocked id ≠ [] := by
    refine ⟨0, by decide +kernel, fun hnil => ?_⟩
    rw [hnil] at hlength
    cases hlength
  have hunits : ((parentBlocked.tree 0).scopes.flatMap fun id =>
      (parentBlocked.blocked id).map StagedWrite.unit) = [⟨"/a.json"⟩] := by decide +kernel
  rw [hblocked hnone hfirst, hunits]

end Workspace

end ScopedState
