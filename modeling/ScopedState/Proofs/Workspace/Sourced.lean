/-
`Proofs/Workspace/Sourced.lean` -- where the remembered documents come from.

Every storage remembers what some content was parsed into or serialized from,
together with the digest of that content: it was loaded from it, or written as
it. No action takes that from a storage. Storages change by loading and by
accepted writes only, and what is written comes out of staging, so it is enough
that the staged writes of all sessions are what they say (`Draft.Sound`).

Anything may happen here: the store may refuse what it likes, others may edit
it, and two storages may be about one unit. So nothing is said about what the
unit of a storage holds now; that is for those who are alone (`Coherent`).
-/
import ScopedState.Proofs.Workspace.Kept
set_option autoImplicit false

namespace ScopedState

open Bindings (Sorted get?)

variable {β δ : Type}

/-! ## 1. Steps on storages -/

namespace Vault

section Sourcing

variable [Backing β] [Digest δ] {v v' : Vault β δ}

/-- Every storage remembers some content: its digest, and a document that it was
parsed into or serialized from. -/
def Sourced (v : Vault β δ) : Prop :=
  ∀ k s, v.storage? k = some s → ∃ content, s.snapshot.Describes content

/-- What has been read is remembered with what was read. -/
theorem exists_describes_of_readSnapshot {unit : Path} {s : Snapshot δ}
    (h : v.readSnapshot unit = .ok s) : ∃ content, s.Describes content := by
  obtain ⟨content, _, hparsed⟩ := readSnapshot_eq_ok_iff.mp h
  exact ⟨content, Snapshot.describes_ofContent hparsed⟩

/-- Units may be read again. -/
theorem Sourced.refreshed (h : v.Sourced) (hrefreshed : v.Refreshed v') : v'.Sourced := by
  intro k s hs
  rcases hrefreshed.storage k with hsame | hread
  · exact h k s (hsame ▸ hs)
  · rw [hread] at hs
    obtain ⟨t, ht, rfl⟩ := Option.map_eq_some_iff.mp hs
    rw [reread]
    cases hread : v.readSnapshot t.unit with
    | error e => exact h k t ht
    | ok snapshot => exact exists_describes_of_readSnapshot hread

/-- A unit may be read for a new storage. -/
theorem Sourced.addStorage (h : v.Sourced) {unit : Path} {template : String}
    {snapshot : Snapshot δ} (hread : v.readSnapshot unit = .ok snapshot) :
    (v.addStorage { unit, template, snapshot }).2.Sourced := by
  intro k s hs
  rw [storage?_addStorage] at hs
  split at hs
  · rw [← Option.some.inj hs]
    exact exists_describes_of_readSnapshot hread
  · exact h k s hs

omit [Backing β] in
/-- The contents that are remembered, for all storages at once. -/
theorem Sourced.exists_last (h : v.Sourced) :
    ∃ last : StorageId → Option Bytes,
      ∀ k s, v.storage? k = some s → s.snapshot.Describes (last k) := by
  have hcontent : ∀ k, ∃ content : Option Bytes,
      ∀ s, v.storage? k = some s → s.snapshot.Describes content := by
    intro k
    cases hs : v.storage? k with
    | none => exact ⟨none, fun s hs => by cases hs⟩
    | some s =>
      obtain ⟨content, hdescribes⟩ := h k s hs
      refine ⟨content, fun s' hs' => ?_⟩
      rw [← Option.some.inj hs']
      exact hdescribes
  exact Classical.axiomOfChoice hcontent

omit [Backing β] in
/-- The document of every number stands in order. -/
theorem Sourced.sorted (h : v.Sourced) (k : StorageId) : Sorted (v.snapshot k).document := by
  rw [snapshot]
  cases hs : v.storage? k with
  | none => exact Bindings.sorted_nil
  | some s =>
    obtain ⟨content, hdescribes⟩ := h k s hs
    exact hdescribes.sorted

variable [DecidableEq δ]

/-- A staged write may be carried out. -/
theorem Sourced.carryOut (h : v.Sourced) {w : StagedWrite δ} (hw : w.draft.Sound) :
    (v.carryOut w).2.Sourced := by
  rcases v.carryOut_cases w with
    ⟨_, hout⟩ | ⟨w', backing, hsome, _, hout⟩ | ⟨w', backing, e, _, _, hout⟩
  · rw [hout]
    exact h
  · obtain ⟨draft, hdraft, rfl⟩ := rebase_eq_some hsome
    have hsound : draft.Sound := Snapshot.sound_of_rebase (h.sorted w.storage) hw hdraft
    intro k s hs
    rw [hout, commit, storage?_remember] at hs
    split at hs
    · obtain ⟨t, _, rfl⟩ := Option.map_eq_some_iff.mp hs
      exact ⟨some draft.bytes, Snapshot.describes_ofDraft hsound⟩
    · exact h k s hs
  · rw [hout]
    exact h

/-- So may any number of them. -/
theorem Sourced.perform {ws : List (String × StagedWrite δ)} (h : v.Sourced)
    (hws : ∀ w ∈ ws, w.2.draft.Sound) : (Turn.perform ws v).Sourced := by
  induction ws generalizing v with
  | nil => exact h
  | cons w ws ih =>
    exact ih (h.carryOut (hws w List.mem_cons_self)) fun x hx => hws x (List.mem_cons_of_mem _ hx)

/-- What a scope stages is sound. -/
theorem Sourced.sound_of_due (h : v.Sourced) (s : ScopeSession δ) :
    ∀ write ∈ s.due v, write.draft.Sound := by
  intro write hwrite
  obtain ⟨slot, _, states, hcollect, hstage⟩ := ScopeSession.exists_stage_of_due hwrite
  unfold stage at hstage
  split at hstage
  · cases hstage
  · rename_i st hst
    obtain ⟨draft, hdraft, rfl⟩ := Option.map_eq_some_iff.mp hstage
    obtain ⟨content, hdescribes⟩ := h _ st hst
    exact Snapshot.sound_of_stage hdescribes.sorted (ScopeSession.sorted_collect hcollect) hdraft

end Sourcing

end Vault

namespace Workspace

/-! ## 2. Actions -/

section Sourcing

variable [Backing β] [DecidableEq δ] [Digest δ] {w w' : Workspace β δ}

/-- Every storage remembers some content, and what the sessions have staged is
sound. -/
structure Sourced (w : Workspace β δ) : Prop where
  vault : w.vault.Sourced
  staged : ∀ e ∈ w.sessions, ∀ s ∈ e.2.parts, ∀ write ∈ s.staged, write.draft.Sound

omit [Backing β] [DecidableEq δ] in
/-- Nothing but the vault and the sessions matters. -/
theorem Sourced.of_eq (h : w.Sourced) (hvault : w'.vault = w.vault)
    (hsessions : w'.sessions = w.sessions) : w'.Sourced := by
  refine ⟨?_, ?_⟩
  · rw [hvault]
    exact h.vault
  · rw [hsessions]
    exact h.staged

omit [DecidableEq δ] in
theorem Sourced.of_outline (h : w.Sourced) (houtline : w'.outline = w.outline)
    (hrefreshed : w.vault.Refreshed w'.vault) : w'.Sourced := by
  have hsessions : w'.outline.sessions = w.outline.sessions := congrArg Workspace.sessions houtline
  have hsessions' : w'.sessions = w.sessions := hsessions
  refine ⟨h.vault.refreshed hrefreshed, ?_⟩
  rw [hsessions']
  exact h.staged

/-- **Registering a component** reads a unit at most. -/
theorem Sourced.addComponent (h : w.Sourced) (id : ScopeId) (component : ComponentId)
    (name template : String) : (w.addComponent id component name template).2.Sourced := by
  rcases w.addComponent_cases id component name template with
    ⟨houtline, hvault⟩ | ⟨w₁, s, unit, k, w₂, houtline, hvault, _, hfound, hout⟩
  · exact h.of_outline houtline (by rw [hvault]; exact Vault.Refreshed.refl _)
  · have hsourced₁ : w₁.Sourced :=
      h.of_outline houtline (by rw [hvault]; exact Vault.Refreshed.refl _)
    have hsourced₂ : w₂.Sourced := by
      rcases storageFor_cases hfound with
        ⟨_, _, rfl⟩ | ⟨_, ⟨_, _, rfl⟩ | ⟨snapshot, _, hread, rfl, rfl⟩⟩
      · exact hsourced₁
      · exact hsourced₁.of_eq rfl rfl
      · exact ⟨hsourced₁.vault.addStorage hread, hsourced₁.staged⟩
    have heffect := loadComponent_effect w₂ id name ⟨component, k⟩
    rw [hout]
    exact (hsourced₂.of_outline heffect.outline heffect.vault).of_eq rfl rfl

omit [Backing β] [DecidableEq δ] in
/-- **A call on a session** that leaves storages and staged writes in order. -/
theorem Sourced.onSession (h : w.Sourced) (hkept : w.Kept) (handle : String)
    {call : SessionTree (ScopeSession δ) → Vault β δ → SessionTree (ScopeSession δ) × Vault β δ}
    (hcall : ∀ t p, t.Uniform p → (∀ s ∈ t.parts, ∀ write ∈ s.staged, write.draft.Sound) →
      (call t w.vault).2.Sourced ∧
        ∀ s ∈ (call t w.vault).1.parts, ∀ write ∈ s.staged, write.draft.Sound) :
    (w.onSession handle call).Sourced := by
  unfold Workspace.onSession
  split
  · exact h
  · rename_i t ht
    have hmem := Bindings.mem_of_get? ht
    obtain ⟨p, hp⟩ := hkept.sessions _ hmem
    obtain ⟨hvault, hstaged⟩ := hcall t p hp (h.staged _ hmem)
    exact ⟨hvault, forall_mem_insert_sessions
      (P := fun t => ∀ s ∈ t.parts, ∀ write ∈ s.staged, write.draft.Sound) h.staged handle hstaged⟩

/-- **The calls on a session** leave storages and staged writes in order. -/
theorem Sourced.calls (h : w.Sourced) {t : SessionTree (ScopeSession δ)} {p : Phase}
    (hp : t.Uniform p) (ht : ∀ s ∈ t.parts, ∀ write ∈ s.staged, write.draft.Sound) :
    ((t.save w.vault).world.Sourced ∧
        ∀ s ∈ (t.save w.vault).session.parts, ∀ write ∈ s.staged, write.draft.Sound) ∧
      ((t.finish w.vault).world.Sourced ∧
        ∀ s ∈ (t.finish w.vault).session.parts, ∀ write ∈ s.staged, write.draft.Sound) ∧
      ((t.reset w.vault).world.Sourced ∧
        ∀ s ∈ (t.reset w.vault).session.parts, ∀ write ∈ s.staged, write.draft.Sound) := by
  obtain ⟨hsaved, hfinished, hreset⟩ := SessionTree.forall_parts_of_calls
    (P := fun s => ∀ write ∈ s.staged, write.draft.Sound) hp w.vault ht
    (fun s _ => h.vault.sound_of_due s) fun _ _ _ _ hwrite => absurd hwrite List.not_mem_nil
  obtain ⟨_, _, _, hsaveWorld, _, hresetWorld⟩ := uniform_calls hp w.vault
  refine ⟨⟨?_, hsaved⟩, ⟨?_, hfinished⟩, ?_, hreset⟩
  · rw [hsaveWorld]
    exact h.vault
  -- A session that has ended does not finish again; else its writes are carried out.
  · cases hterminal : p.isTerminal with
    | true =>
      rw [(SessionTree.calls_of_ended hterminal hp w.vault).2.1]
      exact h.vault
    | false =>
      rw [(SessionTree.finish_spec t (hp.ready hterminal) w.vault).1]
      refine h.vault.perform fun write hwrite => ?_
      rw [SessionTree.writes_eq] at hwrite
      obtain ⟨s, hs, hwrite⟩ := List.mem_flatMap.mp hwrite
      obtain ⟨staged, hstaged, rfl⟩ := List.mem_map.mp hwrite
      exact ht s hs staged hstaged
  · rw [hresetWorld]
    exact h.vault

theorem Sourced.save (h : w.Sourced) (id : ScopeId) : (w.save id).2.Sourced := by
  rcases w.save_cases id with ⟨hout, _⟩ | ⟨hout, _⟩
  · rw [hout]
    refine ⟨h.vault.perform fun write hwrite => ?_, h.staged⟩
    rw [(w.stagedOn_spec id w.vault).2] at hwrite
    obtain ⟨k, _, hwrite⟩ := List.mem_flatMap.mp hwrite
    obtain ⟨staged, hstaged, rfl⟩ := List.mem_map.mp hwrite
    exact h.vault.sound_of_due _ staged hstaged
  · rw [hout]
    exact h

omit [Backing β] [DecidableEq δ] in
/-- Settling has no part in it. -/
theorem Sourced.settle (h : w.Sourced) : w.settle.Sourced :=
  settle_preserves Sourced (fun _ h => h.of_eq rfl rfl) h

/-- **Every action** leaves each storage with a content that it remembers. -/
theorem Sourced.act (h : w.Sourced) (hkept : w.Kept) (a : Action β) : (w.act a).Sourced := by
  cases a with
  | addPool | addScope | list => exact h.of_eq rfl rfl
  | attach | unlist | release | releaseRegistry => exact Sourced.settle (h.of_eq rfl rfl)
  | addComponent | edit => exact h.of_outline rfl (Vault.Refreshed.components _ _)
  | register scope component name template => exact h.addComponent scope component name template
  | expand scope text forget =>
    obtain ⟨houtline, hvault⟩ := expandIn_effect text forget (w.withSubstitutors scope) w
    refine h.of_outline houtline ?_
    rw [Workspace.act, expandEach, hvault]
    exact Vault.Refreshed.refl _
  | reinit scope names reload =>
    have heffect := reinit_effect w scope names reload
    exact h.of_outline heffect.outline heffect.vault
  | save scope => exact h.save scope
  | openSession handle scope =>
    refine ⟨h.vault, forall_mem_insert_sessions
      (P := fun t => ∀ s ∈ t.parts, ∀ write ∈ s.staged, write.draft.Sound) h.staged handle ?_⟩
    intro s hs write hwrite
    rw [startSave, (openTree_spec w (w.tree scope)).2] at hs
    obtain ⟨id, _, rfl⟩ := List.mem_map.mp hs
    rw [openScope_staged] at hwrite
    cases hwrite
  | saveSession handle =>
    rw [Workspace.act]
    exact h.onSession hkept handle fun t p hp ht => (h.calls hp ht).1
  | finishSession handle =>
    rw [Workspace.act]
    exact h.onSession hkept handle fun t p hp ht => (h.calls hp ht).2.1
  | resetSession handle =>
    rw [Workspace.act]
    exact h.onSession hkept handle fun t p hp ht => (h.calls hp ht).2.2
  | dropSession handle => exact ⟨h.vault, fun e he => h.staged e (List.mem_filter.mp he).1⟩
  | disturb change => exact ⟨h.vault, h.staged⟩

/-- **Every storage remembers some content**, whatever has happened. -/
theorem Reachable.sourced {allowed : Action β → Prop} (h : w.Reachable allowed) : w.Sourced := by
  obtain ⟨backing, hsteps⟩ := h
  have hstart : (start backing : Workspace β δ).Sourced :=
    ⟨fun k s hs => (by cases hs), fun e he => absurd he List.not_mem_nil⟩
  refine (hsteps.preserves (fun w => w.Kept ∧ w.Sourced) ?_ ⟨kept_start backing, hstart⟩).2
  rintro w a ⟨hkept, hsourced⟩ _ _
  exact ⟨(hkept.act a).1, hsourced.act hkept a⟩

end Sourcing

end Workspace

end ScopedState
