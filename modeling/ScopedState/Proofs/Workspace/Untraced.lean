/-
`Proofs/Workspace/Untraced.lean` -- a registration that fails leaves no trace.

Registering goes through four tables: the variables of the scope, which expand the
template, the units of the scope, its pool, and the storages. A storage is loaded before
it is entered anywhere, so a unit that cannot be read is in none of them when the
registration is given up, and a storage that was never loaded is never found. All that
is left are names that the template refers to and the scope does not know; those it
has noted.

So the workspace after the failure is like the one before it (`Alike`), and nothing
that happens to the two can tell them apart. This is what makes a second attempt as good
as a first one: whatever has removed the cause would have removed it without the first
attempt, and the registration that follows has the same result and the same effect
(`addComponent_untraced`).
-/
import ScopedState.Proofs.Workspace.Alike
set_option autoImplicit false

namespace ScopedState

open Bindings (get?)

namespace Workspace

variable {β δ : Type}

/-- A scope may note names. -/
theorem alike_expandTemplate (w : Workspace β δ) (id : ScopeId) (template : String) :
    Alike w (w.expandTemplate id template).2 := by
  unfold expandTemplate
  cases hs : (w.scope? id).bind Scope.substitutor with
  | none => exact Alike.refl w
  | some sub =>
    refine { Alike.refl w with scope := fun j => ?_ }
    obtain ⟨s, hs, hsub⟩ := Option.bind_eq_some_iff.mp hs
    rw [scope?_modifyScope]
    split
    · rename_i hj
      rw [hj, hs]
      -- The table is the one that the scope had.
      show some (Scope.forget { s with substitutor := some (sub.expand template).2 })
        = some s.forget
      rw [Scope.forget, Scope.forget, hsub]
      rfl
    · rfl

section Registering

variable [Backing β] [DecidableEq δ] [Digest δ] {w : Workspace β δ} {id : ScopeId}
  {component : ComponentId} {name template : String}

/-- **No storage for a unit**: the scope does not map it, nobody holds one, and it cannot
be read. -/
theorem storageFor_error {s : Scope} {unit : Path} {e : Failure}
    (h : w.storageFor id s unit template = .error e) :
    get? s.storages unit.location = none ∧ (w.pool s.pool).find? w.inUse unit = none ∧
      w.vault.readSnapshot unit = .error e := by
  unfold storageFor at h
  split at h
  · cases h
  · rename_i hnone
    unfold Pool.obtain at h
    cases hfind : (w.pool s.pool).find? w.inUse unit with
    | some k =>
      simp only [hfind] at h
      cases h
    | none =>
      cases hread : w.vault.readSnapshot unit with
      | ok snapshot =>
        simp only [hfind, hread] at h
        cases h
      | error e' =>
        simp only [hfind, hread] at h
        exact ⟨hnone, rfl, congrArg Except.error (Except.error.inj h)⟩

/-- **Why a registration fails.** The scope has the name, or the unit that the template
names has no storage and cannot be read. -/
inductive Refused (w : Workspace β δ) (id : ScopeId) (name template : String) : Failure → Prop where
  | duplicate (bound : (w.entryOf? id name).isSome = true) :
      Refused w id name template (.duplicateComponent name)
  | unreadable (e : Failure) (s : Scope) (scope : w.scope? id = some s)
      (unbound : get? s.components name = none)
      (unmapped : get? s.storages (w.expandTemplate id template).1.location = none)
      (unheld : (w.pool s.pool).find? w.inUse (w.expandTemplate id template).1 = none)
      (unread : w.vault.readSnapshot (w.expandTemplate id template).1 = .error e) :
      Refused w id name template e

/-- **A registration that fails** does so for one of two reasons, and has noted names at
most. -/
theorem addComponent_error {e : Failure}
    (h : (w.addComponent id component name template).1 = .error e) :
    Refused w id name template e ∧ Alike w (w.addComponent id component name template).2 := by
  have hnoted := w.alike_expandTemplate id template
  unfold addComponent at h ⊢
  split at h
  · rename_i hbound
    rw [if_pos hbound, ← Except.error.inj h]
    refine ⟨.duplicate ?_, Alike.refl w⟩
    rw [Option.any_eq_true] at hbound
    obtain ⟨s, hs, hbound⟩ := hbound
    rw [entryOf?, hs]
    exact hbound
  · rename_i hfree
    rw [if_neg hfree]
    simp only [] at h ⊢
    rcases hnoted.scope_cases id with ⟨-, hgone⟩ | ⟨s, t, hs, ht, hst⟩
    · rw [hgone] at h
      cases h
    · rw [ht] at h ⊢
      cases hstorage : (w.expandTemplate id template).2.storageFor id t
          (w.expandTemplate id template).1 template with
      | ok found =>
        simp only [hstorage] at h
        cases h
      | error e' =>
        -- Nothing was entered, so what is left is the workspace with the notes.
        simp only [hstorage] at h ⊢
        obtain rfl := Except.error.inj h
        refine ⟨?_, hnoted⟩
        obtain ⟨hunmapped, hunheld, hunread⟩ := storageFor_error hstorage
        obtain ⟨_, rfl, -⟩ := Scope.exists_of_forget hst
        refine .unreadable e' s hs ?_ hunmapped ?_ (hnoted.vault ▸ hunread)
        · cases hbound : get? s.components name with
          | none => rfl
          | some entry =>
            refine absurd ?_ hfree
            rw [hs, Option.any_some, Bindings.binds, hbound]
            rfl
        · rw [inUse_of_outline hnoted.outline, pool, hnoted.pools] at hunheld
          exact hunheld

/-- **A registration that fails leaves no trace.** Apart from noted names everything is as
before: the store, the storages with what they remember, the components with their
values, what the scopes map, what a session captures, and what is in use. And nothing
shows of it later on. After any course of events the same registration has the same
result as without the failed one, and leaves workspaces that differ in noted names
only. -/
theorem addComponent_untraced {e : Failure}
    (h : (w.addComponent id component name template).1 = .error e) :
    let after := (w.addComponent id component name template).2
    Refused w id name template e ∧ Alike w after ∧ (∀ j, after.startSave j = w.startSave j) ∧
      after.inUse = w.inUse ∧ (∀ p, after.poolSize p = w.poolSize p) ∧
      ∀ events : List (Action β),
        ((after.run events).addComponent id component name template).1
            = ((w.run events).addComponent id component name template).1 ∧
          Alike ((w.run events).addComponent id component name template).2
            ((after.run events).addComponent id component name template).2 := by
  intro after
  obtain ⟨hrefused, halike⟩ := addComponent_error h
  have hinUse : after.inUse = w.inUse := inUse_of_outline halike.outline
  refine ⟨hrefused, halike, halike.startSave, hinUse, fun p => ?_, fun events => ?_⟩
  · rw [poolSize, poolSize, hinUse, pool, pool, halike.pools]
  · exact (halike.run events).addComponent id component name template

end Registering

/-- A scope and a component for a unit that is broken. -/
def brokenUnit : Workspace Memory Bytes :=
  (start { files := [(Path.location ⟨"/u.json"⟩, Utf8.encode "\x7b".toList)] }).run
    [.addScope "r" (some { table := MacroTable.forScope ⟨"/p"⟩ }) 0, .addComponent { name := "c" }]

/-- Somebody repairs it. -/
def repair : Action Memory :=
  .disturb fun m => m.putExternal ⟨"/u.json"⟩ (Utf8.encode "\x7b\"c\": true\x7d".toList)

/-- The registration fails, and succeeds once the unit has been repaired; the component
has its value then. -/
theorem addComponent_untraced_repaired :
    let failed := brokenUnit.addComponent 0 0 "c" "/u.json"
    let again := (failed.2.run [repair]).addComponent 0 0 "c" "/u.json"
    (∃ e, failed.1 = .error e) ∧ again.1 = .ok ⟨"/u.json"⟩ ∧
      Json.sameOption ((again.2.vault.component? 0).bind Component.value) (some (.bool true))
        = true := by
  intro failed again
  obtain ⟨e, he⟩ : ∃ e, failed.1 = .error e := by
    have hfails : failed.1.isOk = false := by decide +kernel
    cases hout : failed.1 with
    | ok u =>
      rw [hout] at hfails
      cases hfails
    | error e => exact ⟨e, rfl⟩
  obtain ⟨-, -, -, -, -, hlater⟩ := addComponent_untraced he
  obtain ⟨hresult, heffect⟩ := hlater [repair]
  refine ⟨⟨e, he⟩, ?_, ?_⟩
  · rw [hresult]
    decide +kernel
  · rw [heffect.vault]
    decide +kernel

end Workspace

end ScopedState
