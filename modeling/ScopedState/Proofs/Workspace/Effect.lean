/-
`Proofs/Workspace/Effect.lean` -- what the longer operations leave alone.

Expanding texts, reinitialising and handing a component its state all work
through many scopes and storages, but the outline stays, and so does the store.
Storages are loaded again at most, so they keep their units, and stay coherent
if they were (`Vault.Refreshed`). Saving changes the vault alone, by carrying
out the staged writes of the session it opens.
-/
import ScopedState.Proofs.Session.Calls
import ScopedState.Proofs.Workspace.Action
set_option autoImplicit false

namespace ScopedState

variable {β δ : Type}

/-! ## 1. Storages that are loaded again -/

namespace Vault

variable [Backing β] [Digest δ]

/-- At most, storages were loaded again and components changed. -/
structure Refreshed (v v' : Vault β δ) : Prop where
  backing : v'.backing = v.backing
  unit : v'.unit? = v.unit?
  storage : ∀ k, v'.storage? k = v.storage? k ∨ v'.storage? k = (v.storage? k).map v.reread

namespace Refreshed

theorem refl (v : Vault β δ) : v.Refreshed v := ⟨rfl, rfl, fun _ => Or.inl rfl⟩

theorem trans {v v' v'' : Vault β δ} (h : v.Refreshed v') (h' : v'.Refreshed v'') :
    v.Refreshed v'' := by
  refine ⟨h'.backing.trans h.backing, h'.unit.trans h.unit, fun k => ?_⟩
  rcases h'.storage k with hsame | hread
  · rw [hsame]
    exact h.storage k
  · -- The store is the same, so a storage that is read twice is read once.
    have hreread : v'.reread = v.reread := funext (reread_congr h.backing)
    refine Or.inr ?_
    rw [hread, hreread]
    rcases h.storage k with hsame | hread'
    · rw [hsame]
    · rw [hread', Option.map_map]
      congr 1
      exact funext v.reread_reread

theorem components (v : Vault β δ) (cs : List Component) :
    v.Refreshed { v with components := cs } := ⟨rfl, rfl, fun _ => Or.inl rfl⟩

theorem load (v : Vault β δ) (id : StorageId) : v.Refreshed (v.load id).2 := by
  refine ⟨v.load_backing id, v.unit?_load id, fun k => ?_⟩
  rw [storage?_load]
  split
  · exact Or.inr rfl
  · exact Or.inl rfl

theorem coherent [LawfulBacking β] {v v' : Vault β δ} (h : v.Refreshed v')
    (used : StorageId → Prop) (hused : v.CoherentOn used) : v'.CoherentOn used :=
  hused.of_reread h.backing h.unit h.storage

end Refreshed

end Vault

namespace Workspace

open Vault (Refreshed)

/-! ## 2. Operations that keep the outline -/

section Expanding

theorem expandTemplate_effect (w : Workspace β δ) (id : ScopeId) (template : String) :
    (w.expandTemplate id template).2.outline = w.outline ∧
      (w.expandTemplate id template).2.vault = w.vault := by
  unfold expandTemplate
  split
  · exact ⟨rfl, rfl⟩
  · exact ⟨outline_setSubstitutor w id _, rfl⟩

theorem expandIn_effect (text : String) (forget : Bool) (ids : List ScopeId) (w : Workspace β δ) :
    (w.expandIn text forget ids).2.outline = w.outline ∧
      (w.expandIn text forget ids).2.vault = w.vault := by
  induction ids generalizing w with
  | nil => exact ⟨rfl, rfl⟩
  | cons id rest ih =>
    rw [expandIn]
    split
    · exact ih w
    · rename_i s _
      obtain ⟨houtline, hvault⟩ := ih (w.modifyScope id fun scope =>
        { scope with substitutor := some ((if forget then s.forget else s).expand text).2 })
      exact ⟨houtline.trans (outline_setSubstitutor w id _), hvault⟩

end Expanding

section Reinitialising

variable [Backing β] [Digest δ]

/-- An operation kept the outline, and refreshed the vault at most. -/
structure Effect (w w' : Workspace β δ) : Prop where
  outline : w'.outline = w.outline
  vault : w.vault.Refreshed w'.vault

theorem Effect.refl (w : Workspace β δ) : Effect w w := ⟨rfl, Refreshed.refl _⟩

theorem Effect.trans {w w' w'' : Workspace β δ} (h : Effect w w') (h' : Effect w' w'') :
    Effect w w'' := ⟨h'.outline.trans h.outline, h.vault.trans h'.vault⟩

theorem loadComponent_effect (w : Workspace β δ) (id : ScopeId) (name : String) (entry : Entry) :
    Effect w (w.loadComponent id name entry) := by
  unfold loadComponent
  split
  · exact ⟨rfl, Refreshed.components _ _⟩
  · exact ⟨outline_setSubstitutor _ id _, Refreshed.components _ _⟩

theorem loadStorages_refreshed (done ids : List StorageId) (v : Vault β δ) :
    v.Refreshed (loadStorages done ids v).2 := by
  induction ids generalizing done v with
  | nil => exact Refreshed.refl v
  | cons id rest ih =>
    rw [loadStorages]
    split
    · exact ih done v
    · split
      · rename_i e v' he
        have h := Refreshed.load v id
        rw [he] at h
        exact h
      · rename_i v' he
        have h := Refreshed.load v id
        rw [he] at h
        exact h.trans (ih (id :: done) v')

theorem foldl_loadComponent_effect (id : ScopeId) (ts : List (String × Entry))
    (w : Workspace β δ) : Effect w (ts.foldl (fun w t => w.loadComponent id t.1 t.2) w) := by
  induction ts generalizing w with
  | nil => exact Effect.refl w
  | cons t ts ih => exact (loadComponent_effect w id t.1 t.2).trans (ih _)

theorem reinitOwn_effect (w : Workspace β δ) (id : ScopeId) (names : List String) (reload : Bool) :
    Effect w (w.reinitOwn id names reload).2 := by
  unfold reinitOwn
  simp only []
  have hloaded : Effect w { w with vault :=
      (if reload then loadStorages []
        (((w.scope? id).elim [] fun s => targets s names).map fun t => t.2.storage) w.vault
      else (.ok (), w.vault)).2 } := by
    refine ⟨rfl, ?_⟩
    split
    · exact loadStorages_refreshed _ _ _
    · exact Refreshed.refl _
  split
  · exact hloaded
  · exact hloaded.trans (foldl_loadComponent_effect id _ _)

mutual

theorem reinitTree_effect (names : List String) (reload : Bool) :
    ∀ (t : ScopeTree) (w : Workspace β δ), Effect w (reinitTree names reload t w).2
  | .node id children, w => by
    have hown := reinitOwn_effect w id names reload
    rw [reinitTree]
    split
    · rename_i e w' he
      rw [he] at hown
      exact hown
    · rename_i w' he
      rw [he] at hown
      exact hown.trans (reinitAll_effect names reload children w')

theorem reinitAll_effect (names : List String) (reload : Bool) :
    ∀ (ts : List ScopeTree) (w : Workspace β δ), Effect w (reinitAll names reload ts w).2
  | [], w => by
    rw [reinitAll]
    exact Effect.refl w
  | t :: ts, w => by
    have hfirst := reinitTree_effect names reload t w
    rw [reinitAll]
    split
    · rename_i e w' he
      rw [he] at hfirst
      exact hfirst
    · rename_i w' he
      rw [he] at hfirst
      exact hfirst.trans (reinitAll_effect names reload ts w')

end

/-- **Reinitialising** keeps the outline and the store. -/
theorem reinit_effect (w : Workspace β δ) (id : ScopeId) (names : List String) (reload : Bool) :
    Effect w (w.reinit id names reload).2 := reinitTree_effect _ reload _ w

end Reinitialising

/-! ## 3. Registering -/

/-- A scope that maps a unit to a storage. -/
def mapUnit (w : Workspace β δ) (id : ScopeId) (unit : Path) (k : StorageId) : Workspace β δ :=
  w.modifyScope id fun s =>
    { s with storages := Bindings.insert s.storages unit.location (unit, k) }

/-- A workspace with a storage freshly loaded for a unit, and entered in a
pool. -/
def addStorage (w : Workspace β δ) (p : PoolId) (s : Storage δ) : Workspace β δ :=
  { w with
    vault := (w.vault.addStorage s).2
    pools := w.pools.set p (Bindings.insert (w.pool p) s.unit.location w.vault.storages.length) }

theorem set_pool (w : Workspace β δ) (p : PoolId) : w.pools.set p (w.pool p) = w.pools := by
  refine List.ext_getElem? fun k => ?_
  rw [List.getElem?_set, pool, List.getD_eq_getElem?_getD]
  split
  · rename_i hk
    subst hk
    split
    · rename_i hlt
      rw [List.getElem?_eq_getElem hlt, Option.getD_some]
    · rename_i hge
      rw [List.getElem?_eq_none (Nat.not_lt.mp hge)]
  · rfl

section Registering

variable [Backing β] [DecidableEq δ] [Digest δ]

/-- **What a pool hands out** for a unit is the storage that it has there, if
somebody holds it; or a new one, which remembers the unit as it has just been
read. -/
theorem obtain_cases {live : StorageId → Bool} {p p' : Pool} {unit : Path} {template : String}
    {v v' : Vault β δ} {k : StorageId} (h : p.obtain live unit template v = .ok (k, p', v')) :
    (Bindings.get? p unit.location = some k ∧ live k = true ∧ p' = p ∧ v' = v) ∨
      ∃ snapshot, p.find? live unit = none ∧ v.readSnapshot unit = .ok snapshot ∧
        k = v.storages.length ∧ p' = Bindings.insert p unit.location k ∧
        v' = (v.addStorage { unit, template, snapshot }).2 := by
  unfold Pool.obtain at h
  cases hfind : p.find? live unit with
  | some j =>
    simp only [hfind] at h
    obtain ⟨rfl, hrest⟩ := Prod.mk.inj (Except.ok.inj h)
    obtain ⟨rfl, rfl⟩ := Prod.mk.inj hrest
    unfold Pool.find? at hfind
    split at hfind
    · rename_i j' hj'
      split at hfind
      · rename_i hlive
        rw [Option.some.inj hfind] at hj' hlive
        exact Or.inl ⟨hj', hlive, rfl, rfl⟩
      · cases hfind
    · cases hfind
  | none =>
    cases hread : v.readSnapshot unit with
    | error e =>
      simp only [hfind, hread] at h
      cases h
    | ok snapshot =>
      simp only [hfind, hread] at h
      obtain ⟨rfl, hrest⟩ := Prod.mk.inj (Except.ok.inj h)
      obtain ⟨rfl, rfl⟩ := Prod.mk.inj hrest
      exact Or.inr ⟨snapshot, rfl, rfl, rfl, rfl, rfl⟩

/-- **The storage that a scope uses for a unit** is its own; or one in use that
the pool knows; or a new one. -/
theorem storageFor_cases {w w' : Workspace β δ} {id : ScopeId} {s : Scope} {unit : Path}
    {template : String} {k : StorageId} (h : w.storageFor id s unit template = .ok (k, w')) :
    (∃ u, Bindings.get? s.storages unit.location = some (u, k) ∧ w' = w) ∨
      Bindings.get? s.storages unit.location = none ∧
        ((Bindings.get? (w.pool s.pool) unit.location = some k ∧ w.inUse k = true ∧
            w' = w.mapUnit id unit k) ∨
          (∃ snapshot, (w.pool s.pool).find? w.inUse unit = none ∧
            w.vault.readSnapshot unit = .ok snapshot ∧ k = w.vault.storages.length ∧
            w' = (w.addStorage s.pool { unit, template, snapshot }).mapUnit id unit k)) := by
  unfold storageFor at h
  split at h
  · rename_i u storage hmapped
    obtain ⟨rfl, rfl⟩ := Prod.mk.inj (Except.ok.inj h)
    exact Or.inl ⟨u, hmapped, rfl⟩
  · rename_i hnone
    refine Or.inr ⟨hnone, ?_⟩
    cases hfound : (w.pool s.pool).obtain w.inUse unit template w.vault with
    | error e =>
      simp only [hfound] at h
      cases h
    | ok found =>
      obtain ⟨j, pool, vault⟩ := found
      simp only [hfound] at h
      obtain ⟨rfl, rfl⟩ := Prod.mk.inj (Except.ok.inj h)
      rcases obtain_cases hfound with
        ⟨hpool, hlive, rfl, rfl⟩ | ⟨snapshot, hfind, hread, rfl, rfl, rfl⟩
      · refine Or.inl ⟨hpool, hlive, ?_⟩
        rw [set_pool]
        rfl
      · exact Or.inr ⟨snapshot, hfind, hread, rfl, rfl⟩

/-- **Registering a component** maps the unit and then enters the component,
with its state, or does not change the outline. -/
theorem addComponent_cases (w : Workspace β δ) (id : ScopeId) (component : ComponentId)
    (name template : String) :
    ((w.addComponent id component name template).2.outline = w.outline ∧
        (w.addComponent id component name template).2.vault = w.vault) ∨
      ∃ (w₁ : Workspace β δ) (s : Scope) (unit : Path) (k : StorageId) (w₂ : Workspace β δ),
        w₁.outline = w.outline ∧ w₁.vault = w.vault ∧ w₁.scope? id = some s ∧
        w₁.storageFor id s unit template = .ok (k, w₂) ∧
        (w.addComponent id component name template).2
          = (w₂.loadComponent id name ⟨component, k⟩).modifyScope id fun s =>
              { s with components := Bindings.insert s.components name ⟨component, k⟩ } := by
  unfold addComponent
  split
  · exact Or.inl ⟨rfl, rfl⟩
  -- Until the storage is found only path variables have changed.
  · have hexpand := w.expandTemplate_effect id template
    cases hw₁ : w.expandTemplate id template with
    | mk unit w₁ =>
      rw [hw₁] at hexpand
      simp only []
      cases hs : w₁.scope? id with
      | none => exact Or.inl hexpand
      | some s =>
        simp only []
        cases hstorage : w₁.storageFor id s unit template with
        | error e => exact Or.inl hexpand
        | ok found =>
          obtain ⟨k, w₂⟩ := found
          exact Or.inr ⟨w₁, s, unit, k, w₂, hexpand.1, hexpand.2, hs, hstorage, rfl⟩

end Registering

end Workspace

end ScopedState
