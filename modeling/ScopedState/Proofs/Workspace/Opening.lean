/-
`Proofs/Workspace/Opening.lean` -- the session that a save opens.

A session over a scope has one part for every place in the tree below it. The
parts stand in the order in which they are finished: the scopes below a scope
in their order, each with all that is below it, and then the scope itself
(`ScopeTree.postorder`). Every part captures its scope as it is when the
session is opened.

A save opens such a session, stages it on the vault as it is, and finishes it
unless some unit is read-only. So it comes to carrying out, one after the other
and in this order, the writes that are due for each scope.
-/
import ScopedState.Proofs.Workspace.Effect
set_option autoImplicit false

namespace ScopedState

variable {β δ : Type}

/-! ## 1. The order of a tree -/

namespace ScopeTree

mutual

/-- The scopes of a tree, each after those below it. -/
def postorder : ScopeTree → List ScopeId
  | node scope children => postorderAll children ++ [scope]

/-- The scopes of some trees, each after those below it. -/
def postorderAll : List ScopeTree → List ScopeId
  | [] => []
  | t :: ts => t.postorder ++ postorderAll ts

end

mutual

theorem mem_postorder : ∀ (t : ScopeTree) (id : ScopeId), id ∈ t.postorder ↔ id ∈ t.scopes
  | node scope children, id => by
    rw [postorder, scopes, List.mem_append, mem_postorderAll children, List.mem_singleton,
      List.mem_cons, or_comm]

theorem mem_postorderAll : ∀ (ts : List ScopeTree) (id : ScopeId),
    id ∈ postorderAll ts ↔ id ∈ scopesOfAll ts
  | [], _ => Iff.rfl
  | t :: ts, id => by
    rw [postorderAll, scopesOfAll, List.mem_append, List.mem_append, mem_postorder t,
      mem_postorderAll ts]

end

theorem mem_scopesOfAll {ts : List ScopeTree} {id : ScopeId} :
    id ∈ scopesOfAll ts ↔ ∃ t ∈ ts, id ∈ t.scopes := by
  induction ts with
  | nil =>
    rw [scopesOfAll]
    simp
  | cons t ts ih =>
    rw [scopesOfAll, List.mem_append, ih]
    simp only [List.mem_cons, or_and_right, exists_or, exists_eq_left]

end ScopeTree

namespace Workspace

open SessionTree (parts partsAll Uniform UniformAll)

mutual

/-- A session captures what it does of each scope, whatever the store is. -/
theorem openTree_congr {β' : Type} {w : Workspace β δ} {w' : Workspace β' δ}
    (h : w'.openScope = w.openScope) : ∀ t : ScopeTree, w'.openTree t = w.openTree t
  | .node _ children => by rw [openTree, openTree, h, openAll_congr h children]

theorem openAll_congr {β' : Type} {w : Workspace β δ} {w' : Workspace β' δ}
    (h : w'.openScope = w.openScope) : ∀ ts : List ScopeTree, w'.openAll ts = w.openAll ts
  | [] => rfl
  | t :: ts => by rw [openAll, openAll, openTree_congr h t, openAll_congr h ts]

end

/-- A part is open at first. -/
theorem openScope_phase (w : Workspace β δ) (id : ScopeId) : (w.openScope id).phase = .open := by
  unfold openScope
  split <;> rfl

theorem openScope_isOpen (w : Workspace β δ) (id : ScopeId) :
    (w.openScope id).phase.isTerminal = false := by
  rw [openScope_phase]
  rfl

/-- Nothing is staged in it. -/
theorem openScope_staged (w : Workspace β δ) (id : ScopeId) : (w.openScope id).staged = [] := by
  unfold openScope
  split <;> rfl

mutual

/-- **A session that is opened** has a part for every scope, all of them open. -/
theorem openTree_spec (w : Workspace β δ) : ∀ t : ScopeTree,
    (w.openTree t).Uniform .open ∧ (w.openTree t).parts = t.postorder.map w.openScope
  | .node id children => by
    obtain ⟨huniform, hparts⟩ := openAll_spec w children
    rw [openTree]
    refine ⟨⟨rfl, w.openScope_phase id, huniform⟩, ?_⟩
    rw [parts, parts, hparts, ScopeTree.postorder, List.map_append, List.map_singleton]

theorem openAll_spec (w : Workspace β δ) : ∀ ts : List ScopeTree,
    UniformAll .open (openAll w ts) ∧
      partsAll (openAll w ts) = (ScopeTree.postorderAll ts).map w.openScope
  | [] => ⟨trivial, rfl⟩
  | t :: ts => by
    obtain ⟨huniform, hparts⟩ := openTree_spec w t
    obtain ⟨huniform', hparts'⟩ := openAll_spec w ts
    rw [openAll]
    refine ⟨⟨huniform, huniform'⟩, ?_⟩
    rw [partsAll, hparts, hparts', ScopeTree.postorderAll, List.map_append]

end

/-- A unit of a scope with the components stored in it. -/
def slotAt (w : Workspace β δ) (s : Scope) (held : Path × StorageId) : Slot :=
  { unit := (w.vault.storage? held.2).elim held.1 Storage.unit
    storage := held.2
    components := (s.components.filter fun c => c.2.storage = held.2).map
      fun c => (c.1, c.2.component) }

theorem layout_eq (w : Workspace β δ) (s : Scope) :
    w.layout s = s.storages.map fun e => w.slotAt s e.2 := by
  rw [layout, Bindings.values, List.map_map]
  rfl

/-! ## 2. What a save comes to -/

section Save

variable [Backing β] [DecidableEq δ] [Digest δ]

/-- The session of a scope and all below it, staged on some vault. -/
def stagedOn (w : Workspace β δ) (id : ScopeId) (v : Vault β δ) :
    SessionTree (ScopeSession δ) := ((w.startSave id).save v).session

/-- **What a staged session holds**: for every scope, in the order in which they
are finished, the writes that are due on the vault it was staged on. -/
theorem stagedOn_spec (w : Workspace β δ) (id : ScopeId) (v : Vault β δ) :
    (w.stagedOn id v).Uniform .collecting ∧
      (w.stagedOn id v).writes = (w.tree id).postorder.flatMap fun k =>
        ((w.openScope k).due v).map fun write => ((w.openScope k).name, write) := by
  obtain ⟨huniform, hparts⟩ := openTree_spec w (w.tree id)
  obtain ⟨_, hcollecting, hsaved, _, _⟩ := SessionTree.save_spec (p := .open) rfl huniform v
  refine ⟨hcollecting, ?_⟩
  rw [stagedOn, startSave, SessionTree.writes_eq, hsaved, hparts, List.map_map, List.flatMap_map]
  congr 1
  funext k
  have hopen := w.openScope_isOpen k
  obtain ⟨hsession, _, _, _⟩ := ScopeSession.save_of_open hopen v
  rw [Function.comp_apply, hsession]

/-- **Staging a session that was opened just now** changes nothing. It goes well when it
does for every scope, and reports nothing when it does not for any. -/
theorem startSave_save (w : Workspace β δ) (root : ScopeId) :
    ((w.startSave root).save w.vault).world = w.vault ∧
      (((w.startSave root).save w.vault).outcome = .ok () ↔ ∀ id ∈ (w.tree root).scopes,
        ((w.openScope id).save w.vault).outcome = .ok ()) ∧
      (((w.startSave root).save w.vault).readOnly = [] ↔ ∀ id ∈ (w.tree root).scopes,
        ((w.openScope id).save w.vault).readOnly = []) := by
  obtain ⟨huniform, hparts⟩ := openTree_spec w (w.tree root)
  obtain ⟨hworld, _, _, houtcome, hreadOnly⟩ :=
    SessionTree.save_spec (p := .open) rfl huniform w.vault
  -- The parts are those of the scopes, in another order.
  simp only [hparts, List.forall_mem_map, ScopeTree.mem_postorder] at houtcome hreadOnly
  exact ⟨hworld, houtcome, hreadOnly⟩

/-- **Finishing** goes well when no write was refused. -/
theorem finish_eq_ok_iff {t : SessionTree (ScopeSession δ)} (ht : t.Ready) (v : Vault β δ) :
    (t.finish v).outcome = .ok () ↔ ∀ turn ∈ Turn.all t.writes v, turn.answer = .ok () := by
  rw [← reported_eq_none_iff, (SessionTree.finish_spec t ht v).2, Turn.firstFailure_eq_none_iff]

/-- **Saving** carries out the writes that are due, or does nothing at all. It
goes well when every component tells its state, no unit with a write due is
read-only, and no write is refused. -/
theorem save_cases (w : Workspace β δ) (id : ScopeId) :
    ((w.save id).2 = { w with vault := Turn.perform (w.stagedOn id w.vault).writes w.vault } ∧
        ((w.save id).1 = .ok () →
          (∀ k ∈ (w.tree id).postorder, ((w.openScope k).save w.vault).outcome = .ok () ∧
            ((w.openScope k).save w.vault).readOnly = []) ∧
          ∀ turn ∈ Turn.all (w.stagedOn id w.vault).writes w.vault, turn.answer = .ok ())) ∨
      ((w.save id).2 = w ∧ (w.save id).1 ≠ .ok ()) := by
  obtain ⟨huniform, hparts⟩ := openTree_spec w (w.tree id)
  obtain ⟨hworld, hcollecting, _, houtcome, hreadOnly⟩ :=
    SessionTree.save_spec (p := .open) rfl huniform w.vault
  have hready := hcollecting.ready rfl
  unfold save
  simp only [startSave, hworld]
  split
  -- Nothing is read-only, so the session is finished; else it is reset.
  · rename_i hnone
    refine Or.inl ⟨?_, fun hok => ?_⟩
    · rw [(SessionTree.finish_spec _ hready w.vault).1]
      rfl
    · obtain ⟨hstaged, hfinished⟩ := (SessionTree.firstFailure_eq_ok_iff _ _).mp hok
      have hok' := houtcome.mp hstaged
      have hnone' := hreadOnly.mp (List.isEmpty_iff.mp hnone)
      rw [hparts] at hok' hnone'
      exact ⟨fun k hk => ⟨hok' _ (List.mem_map_of_mem hk), hnone' _ (List.mem_map_of_mem hk)⟩,
        (finish_eq_ok_iff hready w.vault).mp hfinished⟩
  · obtain ⟨hreset, _, _⟩ := SessionTree.reset_spec (p := .collecting) rfl hcollecting w.vault
    refine Or.inr ⟨?_, fun hok => ?_⟩
    · rw [hreset]
    · obtain ⟨_, herror⟩ := (SessionTree.firstFailure_eq_ok_iff _ _).mp hok
      cases herror

end Save

end Workspace

end ScopedState
