/-
`Proofs/Workspace/Carried.lean` -- workspaces on a store that stands for another one.

Most of what is proved of workspaces holds on lawful stores, and files are not one. What
is done about that is not to prove everything a second time. A workspace uses its store
only through the vault and its sessions, and only for the units of its storages. So if a
store stands for another one at these units, every operation has the same outcome on
both, and leaves workspaces that are the same but for the store (`Workspace.along`).

The one thing that has to be looked at is which units the store is asked for. Storages are
asked for under their units, and sessions stage and write under those of the storages
(`Labelled`). Only a registration may ask for a unit that nobody has had before. If it
cannot be read nothing comes of that, on either store, and if it can, there is a storage
for it afterwards. So it is enough to look at the storages that there are in the end.

A shelf stands for its files. So a course of events on files is one on a shelf
(`exists_shelved`), which is lawful; and what is known of the workspace on the shelf is
known of the one on files.
-/
import ScopedState.Proofs.Backing.Shelf
import ScopedState.Proofs.Session.Carried
import ScopedState.Proofs.Workspace.Holders
import ScopedState.Proofs.Workspace.OwnWrites
set_option autoImplicit false

namespace ScopedState

open Bindings (get?)

variable {β γ δ : Type} {f : β → γ} {P : Path → Prop}

theorem ScopeSession.Labelled.stagedWithin {s : ScopeSession δ} {v : Vault β δ}
    (h : s.Labelled v) (hwithin : v.Within P) : s.StagedWithin P :=
  fun write hwrite => hwithin _ _ (h.writes write hwrite)

namespace Workspace

/-! ## 1. Operations that leave the store alone -/

/-- A workspace, with what its store stands for in the place of the store. -/
def along (f : β → γ) (w : Workspace β δ) : Workspace γ δ :=
  { vault := w.vault.along f
    scopes := w.scopes
    registries := w.registries
    pools := w.pools
    held := w.held
    heldRegistries := w.heldRegistries
    live := w.live
    sessions := w.sessions }

section Plain

variable (f) (w : Workspace β δ)

@[simp] theorem along_vault : (w.along f).vault = w.vault.along f := rfl

@[simp] theorem along_scope? : (w.along f).scope? = w.scope? := rfl

@[simp] theorem along_pool : (w.along f).pool = w.pool := rfl

@[simp] theorem along_inUse : (w.along f).inUse = w.inUse := rfl

@[simp] theorem along_sessions : (w.along f).sessions = w.sessions := rfl

theorem along_outline : (w.along f).outline = w.outline := rfl

@[simp] theorem along_tree (root : ScopeId) : (w.along f).tree root = w.tree root :=
  tree_of_outline (w.along_outline f) root

@[simp] theorem along_modifyScope (id : ScopeId) (g : Scope → Scope) :
    (w.along f).modifyScope id g = (w.modifyScope id g).along f := rfl

/-- What is in order does not depend on the store. -/
theorem Kept.along {w : Workspace β δ} (h : w.Kept) : (w.along f).Kept :=
  ⟨fun s hs =>
    have hs := h.scopes s hs
    ⟨hs.storages, hs.components, hs.located, hs.mapped⟩, h.pools, h.sessions⟩

/-- Taking out of use goes by who refers to whom. -/
theorem settle_along : (w.along f).settle = w.settle.along f := by
  -- There are as many rounds as scopes, and each looks at holders and registries only.
  have hrounds : ∀ (rounds : List Scope) (w : Workspace β δ),
      rounds.foldl (fun w _ => w.sweep) (w.along f)
        = (rounds.foldl (fun w _ => w.sweep) w).along f := by
    intro rounds
    induction rounds with
    | nil => exact fun _ => rfl
    | cons _ rounds ih => exact fun w => ih w.sweep
  exact hrounds w.scopes w

theorem attach_along (id : ScopeId) : ((w.along f).attach id).2 = (w.attach id).2.along f :=
  settle_along f (modifyScope { w with
    registries := w.registries ++ [[]]
    heldRegistries := w.registries.length :: w.heldRegistries } id _)

theorem unregister_along (id : RegistryId) (child : ScopeId) :
    (w.along f).unregister id child = (w.unregister id child).along f :=
  settle_along f { w with
    registries := w.registries.modify id fun ids => ids.filter (· ≠ child) }

theorem release_along (id : ScopeId) : (w.along f).release id = (w.release id).along f :=
  settle_along f { w with held := w.held.filter (· ≠ id) }

theorem releaseRegistry_along (id : RegistryId) :
    (w.along f).releaseRegistry id = (w.releaseRegistry id).along f :=
  settle_along f { w with heldRegistries := w.heldRegistries.filter (· ≠ id) }

/-- A component is handed what its storage remembers. -/
theorem loadComponent_along (id : ScopeId) (name : String) (entry : Entry) :
    (w.along f).loadComponent id name entry = (w.loadComponent id name entry).along f := by
  unfold loadComponent
  simp only [along_vault, Vault.along_storage?, along_scope?]
  cases (w.vault.storage? entry.storage).bind fun s => s.state? name with
  | none => rfl
  | some stored => rfl

theorem foldl_loadComponent_along (id : ScopeId) (ts : List (String × Entry)) :
    ts.foldl (fun w t => w.loadComponent id t.1 t.2) (w.along f)
      = (ts.foldl (fun w t => w.loadComponent id t.1 t.2) w).along f := by
  induction ts generalizing w with
  | nil => rfl
  | cons t ts ih =>
    rw [List.foldl_cons, List.foldl_cons, loadComponent_along]
    exact ih _

/-- A template is expanded. -/
theorem expandTemplate_along (id : ScopeId) (template : String) :
    (w.along f).expandTemplate id template
      = ((w.expandTemplate id template).1, (w.expandTemplate id template).2.along f) := by
  unfold expandTemplate
  simp only [along_scope?]
  cases (w.scope? id).bind Scope.substitutor with
  | none => rfl
  | some sub => rfl

/-- A text is expanded. -/
theorem expandIn_along (text : String) (forget : Bool) (ids : List ScopeId) :
    (w.along f).expandIn text forget ids
      = ((w.expandIn text forget ids).1, (w.expandIn text forget ids).2.along f) := by
  induction ids generalizing w with
  | nil => rfl
  | cons id ids ih =>
    rw [expandIn, expandIn, along_scope?]
    cases (w.scope? id).bind Scope.substitutor with
    | none => exact ih w
    | some sub => simp only [along_modifyScope, ih]

theorem expandEach_along (id : ScopeId) (text : String) (forget : Bool) :
    (w.along f).expandEach id text forget
      = ((w.expandEach id text forget).1, (w.expandEach id text forget).2.along f) := by
  have hwith : (w.along f).withSubstitutors id = w.withSubstitutors id := by
    rw [withSubstitutors, withSubstitutors, along_tree, along_scope?]
  rw [expandEach, expandEach, hwith, expandIn_along]

/-- **A session captures** the same of both. -/
theorem openScope_along (id : ScopeId) : (w.along f).openScope id = w.openScope id := by
  rw [openScope, openScope, along_scope?]
  rfl

theorem startSave_along (root : ScopeId) : (w.along f).startSave root = w.startSave root := by
  rw [startSave, startSave, along_tree]
  exact openTree_congr (funext (openScope_along f w)) _

theorem atHand_along (s : ScopeSession δ) : (w.along f).AtHand s ↔ w.AtHand s := by
  unfold AtHand
  simp only [openScope_along]
  rfl

end Plain

/-! ## 2. Operations on the store -/

section Loading

variable [Backing β] [Backing γ] [Digest δ] {w : Workspace β δ} (h : Backing.StandsFor f P)

include h

/-- **Storages are loaded** again. -/
theorem loadStorages_along (done ids : List StorageId) {v : Vault β δ} (hwithin : v.Within P) :
    loadStorages done ids (v.along f)
      = ((loadStorages done ids v).1, (loadStorages done ids v).2.along f) := by
  induction ids generalizing done v with
  | nil => rfl
  | cons k ids ih =>
    rw [loadStorages, loadStorages, Vault.load_along h v hwithin]
    have hafter := hwithin.of_unit? (Vault.Refreshed.load v k).unit
    split
    · exact ih done hwithin
    · cases hload : v.load k with
      | mk outcome after =>
        rw [hload] at hafter
        cases outcome with
        | error e => rfl
        | ok _ => exact ih _ hafter

theorem reinitOwn_along (hwithin : w.vault.Within P) (id : ScopeId) (names : List String)
    (reload : Bool) :
    (w.along f).reinitOwn id names reload
      = ((w.reinitOwn id names reload).1, (w.reinitOwn id names reload).2.along f) := by
  unfold reinitOwn
  rw [along_scope?, along_vault]
  simp only []
  generalize (w.scope? id).elim [] (fun s => targets s names) = ts
  have hloaded := loadStorages_along h [] (ts.map fun t => t.2.storage) hwithin
  cases reload with
  | false => exact congrArg (Prod.mk _) (foldl_loadComponent_along f w id ts)
  | true =>
    rw [if_pos rfl, if_pos rfl, hloaded]
    generalize loadStorages [] (ts.map fun t => t.2.storage) w.vault = loaded
    obtain ⟨outcome, v⟩ := loaded
    cases outcome with
    | error e => rfl
    | ok _ => exact congrArg (Prod.mk _) (foldl_loadComponent_along f { w with vault := v } id ts)

omit h in
mutual

/-- **A tree is reinitialised** alike. -/
theorem reinitTree_along (h : Backing.StandsFor f P) (names : List String) (reload : Bool) :
    ∀ (t : ScopeTree) {w : Workspace β δ}, w.vault.Within P →
      reinitTree names reload t (w.along f)
        = ((reinitTree names reload t w).1, (reinitTree names reload t w).2.along f)
  | .node id children, w, hwithin => by
    have hunit := (reinitOwn_effect w id names reload).vault.unit
    rw [reinitTree, reinitTree, reinitOwn_along h hwithin]
    cases hown : w.reinitOwn id names reload with
    | mk outcome after =>
      rw [hown] at hunit
      cases outcome with
      | error e => rfl
      | ok _ => exact reinitAll_along h names reload children (hwithin.of_unit? hunit)

theorem reinitAll_along (h : Backing.StandsFor f P) (names : List String) (reload : Bool) :
    ∀ (ts : List ScopeTree) {w : Workspace β δ}, w.vault.Within P →
      reinitAll names reload ts (w.along f)
        = ((reinitAll names reload ts w).1, (reinitAll names reload ts w).2.along f)
  | [], _, _ => rfl
  | t :: ts, w, hwithin => by
    have hunit := (reinitTree_effect names reload t w).vault.unit
    rw [reinitAll, reinitAll, reinitTree_along h names reload t hwithin]
    cases hfirst : reinitTree names reload t w with
    | mk outcome after =>
      rw [hfirst] at hunit
      cases outcome with
      | error e => rfl
      | ok _ => exact reinitAll_along h names reload ts (hwithin.of_unit? hunit)

end

/-- **A reload** has the same outcome. -/
theorem reinit_along (hwithin : w.vault.Within P) (root : ScopeId) (names : List String)
    (reload : Bool) :
    (w.along f).reinit root names reload
      = ((w.reinit root names reload).1, (w.reinit root names reload).2.along f) := by
  rw [reinit, reinit, along_tree]
  exact reinitTree_along h _ reload (w.tree root) hwithin

variable [DecidableEq δ]

/-- **The storage of a unit** is found in both or in neither, if what is found is for a unit
of the right kind. -/
theorem storageFor_along (id : ScopeId) (s : Scope) (unit : Path) (template : String)
    (hafter : ∀ k w', (w.along f).storageFor id s unit template = .ok (k, w') →
      w'.vault.Within P) :
    (∃ k w', w.storageFor id s unit template = .ok (k, w') ∧
        (w.along f).storageFor id s unit template = .ok (k, w'.along f)) ∨
      ∃ e e', w.storageFor id s unit template = .error e ∧
        (w.along f).storageFor id s unit template = .error e' := by
  unfold storageFor Pool.obtain at hafter ⊢
  simp only [along_pool, along_inUse, along_vault] at hafter ⊢
  cases hmapped : get? s.storages unit.location with
  | some mapped => exact Or.inl ⟨_, _, rfl, rfl⟩
  | none =>
    cases hpooled : (w.pool s.pool).find? w.inUse unit with
    | some k => exact Or.inl ⟨_, _, rfl, rfl⟩
    | none =>
      simp only [hmapped, hpooled] at hafter ⊢
      by_cases hunit : P unit
      · rw [Vault.readSnapshot_along h w.vault hunit]
        cases w.vault.readSnapshot unit with
        | error e => exact Or.inr ⟨e, e, rfl, rfl⟩
        | ok snapshot => exact Or.inl ⟨_, _, rfl, rfl⟩
      · -- If it could be read there would be a storage for it afterwards.
        obtain ⟨e, he⟩ := Vault.readSnapshot_refused h w.vault hunit
        rw [he]
        cases hread : (w.vault.along f).readSnapshot unit with
        | error e' => exact Or.inr ⟨e, e', rfl, rfl⟩
        | ok snapshot =>
          rw [hread] at hafter
          refine absurd (hafter _ _ rfl w.vault.storages.length unit ?_) hunit
          exact (Vault.unit?_addStorage (w.vault.along f) ⟨unit, template, snapshot⟩ _).trans
            (if_pos rfl)

/-- **Registering a component** leads to the same, if the units there are then are of the
right kind. -/
theorem addComponent_along (id : ScopeId) (component : ComponentId) (name template : String)
    (hafter : ((w.along f).addComponent id component name template).2.vault.Within P) :
    ((w.along f).addComponent id component name template).2
      = (w.addComponent id component name template).2.along f := by
  unfold addComponent at hafter ⊢
  rw [expandTemplate_along] at hafter ⊢
  have hscope : ((w.along f).scope? id) = w.scope? id := rfl
  by_cases hbound : ((w.scope? id).any fun s => Bindings.binds s.components name) = true
  · rw [if_pos (hscope ▸ hbound), if_pos hbound]
  · rw [if_neg (hscope ▸ hbound)] at hafter ⊢
    rw [if_neg hbound]
    generalize w.expandTemplate id template = expanded at hafter ⊢
    obtain ⟨unit, w'⟩ := expanded
    simp only [along_scope?] at hafter ⊢
    cases hs : w'.scope? id with
    | none => rfl
    | some s =>
      simp only [hs] at hafter ⊢
      -- Entering the component leaves the units as they are when its storage has been found.
      have hwithin : ∀ k w'', (w'.along f).storageFor id s unit template = .ok (k, w'') →
          w''.vault.Within P := by
        intro k w'' hfound
        rw [hfound] at hafter
        have hunit := (loadComponent_effect w'' id name ⟨component, k⟩).vault.unit
        exact hafter.of_unit? hunit.symm
      rcases storageFor_along h id s unit template hwithin with
        ⟨k, w'', hfound, hfound'⟩ | ⟨e, e', hfails, hfails'⟩
      · simp only [hfound, hfound', loadComponent_along, along_modifyScope]
      · simp only [hfails, hfails']

/-- **A save** has the same outcome. -/
theorem save_along (hkept : w.Kept) (hwithin : w.vault.Within P) (root : ScopeId) :
    (w.along f).save root = ((w.save root).1, (w.save root).2.along f) := by
  -- What is staged is for the units of the storages.
  have hstaged : ∀ s ∈ ((w.startSave root).save w.vault).session.parts, s.StagedWithin P := by
    have hopen := (openTree_spec w (w.tree root)).1
    have hlabelled := (labelled_calls hopen (labelled_startSave hkept root)).1
    exact fun s hs => (hlabelled s hs).stagedWithin hwithin
  have hworld := SessionTree.save_world w.vault (w.startSave root)
  unfold Workspace.save
  rw [startSave_along, along_vault, SessionTree.save_along h hwithin]
  simp only [Saved.mapWorld, hworld, SessionTree.finish_along h _ _ hstaged,
    SessionTree.reset_along]
  split <;> rfl

end Loading

/-! ## 3. All actions -/

/-- An action on another store. Only the changes to the store are others. -/
def Action.carry (g : (γ → γ) → β → β) : Action γ → Action β
  | .addPool => .addPool
  | .addScope name substitutor pool => .addScope name substitutor pool
  | .addComponent component => .addComponent component
  | .attach scope => .attach scope
  | .list registry scope => .list registry scope
  | .unlist registry scope => .unlist registry scope
  | .release scope => .release scope
  | .releaseRegistry registry => .releaseRegistry registry
  | .register scope component name template => .register scope component name template
  | .edit component change => .edit component change
  | .expand scope text forget => .expand scope text forget
  | .reinit scope names reload => .reinit scope names reload
  | .save scope => .save scope
  | .openSession handle scope => .openSession handle scope
  | .saveSession handle => .saveSession handle
  | .finishSession handle => .finishSession handle
  | .resetSession handle => .resetSession handle
  | .dropSession handle => .dropSession handle
  | .disturb change => .disturb (g change)

theorem Action.scope?_carry (g : (γ → γ) → β → β) (a : Action γ) :
    (a.carry g).scope? = a.scope? := by
  cases a <;> rfl

/-- A call on a session that has the same outcome. -/
theorem onSession_along {w : Workspace β δ} (hlabelled : w.Labelled)
    (hwithin : w.vault.Within P) (handle : String)
    {call : SessionTree (ScopeSession δ) → Vault γ δ → SessionTree (ScopeSession δ) × Vault γ δ}
    {call' : SessionTree (ScopeSession δ) → Vault β δ → SessionTree (ScopeSession δ) × Vault β δ}
    (hcall : ∀ t : SessionTree (ScopeSession δ), (∀ s ∈ t.parts, s.StagedWithin P) →
      call t (w.vault.along f) = ((call' t w.vault).1, (call' t w.vault).2.along f)) :
    (w.along f).onSession handle call = (w.onSession handle call').along f := by
  rw [onSession, onSession, along_sessions]
  cases ht : get? w.sessions handle with
  | none => rfl
  | some t =>
    have hparts : ∀ s ∈ t.parts, s.StagedWithin P := fun s hs =>
      (hlabelled _ (Bindings.mem_of_get? ht) s hs).stagedWithin hwithin
    simp only [along_vault, hcall t hparts]
    rfl

section Acting

variable [Backing β] [Backing γ] [DecidableEq δ] [Digest δ] {w : Workspace β δ}

/-- **Every action** leads to the same on both stores, if the units there are then are of the
right kind. -/
theorem act_along (h : Backing.StandsFor f P) (hkept : w.Kept) (hlabelled : w.Labelled)
    {g : (γ → γ) → β → β} (a : Action γ)
    (hdisturb : ∀ change, a = .disturb change → ∀ b, f (g change b) = change (f b))
    (hwithin : w.vault.Within P) (hafter : ((w.along f).act a).vault.Within P) :
    (w.along f).act a = (w.act (a.carry g)).along f := by
  cases a with
  | addPool | addScope | addComponent | list | edit | dropSession => rfl
  | attach scope => exact attach_along f w scope
  | unlist registry scope => exact unregister_along f w registry scope
  | release scope => exact release_along f w scope
  | releaseRegistry registry => exact releaseRegistry_along f w registry
  | register scope component name template =>
    exact addComponent_along h scope component name template hafter
  | expand scope text forget => exact congrArg Prod.snd (expandEach_along f w scope text forget)
  | reinit scope names reload => exact congrArg Prod.snd (reinit_along h hwithin scope names reload)
  | save scope => exact congrArg Prod.snd (save_along h hkept hwithin scope)
  | openSession handle scope =>
    show ({ w.along f with sessions := _ } : Workspace γ δ) = _
    rw [startSave_along]
    rfl
  | saveSession handle =>
    rw [Action.carry, act, act]
    refine onSession_along hlabelled hwithin handle fun t _ => ?_
    rw [SessionTree.save_along h hwithin]
    rfl
  | finishSession handle =>
    rw [Action.carry, act, act]
    refine onSession_along hlabelled hwithin handle fun t ht => ?_
    rw [SessionTree.finish_along h t _ ht]
    rfl
  | resetSession handle =>
    rw [Action.carry, act, act]
    refine onSession_along hlabelled hwithin handle fun t _ => ?_
    rw [SessionTree.reset_along]
    rfl
  | disturb change =>
    show ({ w.along f with
      vault := { w.vault.along f with backing := change (f w.vault.backing) } } : Workspace γ δ) = _
    rw [← hdisturb change rfl]
    rfl

/-- **A course of events** is one on the other store, if the units there are in the end are
of the right kind. -/
theorem exists_carried (h : Backing.StandsFor f P) {g : (γ → γ) → β → β}
    {before : Action β → Prop} {allowed : Action γ → Prop} {allowed' : Action β → Prop}
    (hdisturb : ∀ change, allowed (.disturb change) → ∀ b, f (g change b) = change (f b))
    (hallowed : ∀ a, allowed a → allowed' (a.carry g)) (hw : w.Reachable before)
    {w₁ : Workspace γ δ} (hsteps : Steps allowed (w.along f) w₁) (hwithin : w₁.vault.Within P) :
    ∃ w' : Workspace β δ, Steps allowed' w w' ∧ w'.along f = w₁ := by
  induction hsteps with
  | refl => exact ⟨w, .refl w, rfl⟩
  | act a hbefore ha hpossible ih =>
    -- No storage is ever given up, so what holds of the units in the end held all along.
    have hkept := hbefore.preserves Kept (fun w a h _ _ => (h.act a).1) (hw.kept.along f)
    have hwithin' := hwithin.of_keeps (hkept.act a).2
    obtain ⟨w', hsteps', rfl⟩ := ih hwithin'
    obtain ⟨hkept', hlabelled'⟩ := hsteps'.labelled hw.kept hw.labelled
    have hpossible' : w'.Possible (a.carry g) := by
      rw [Possible, Action.scope?_carry]
      exact hpossible
    refine ⟨w'.act (a.carry g), .act _ hsteps' (hallowed a ha) hpossible', ?_⟩
    exact (act_along h hkept' hlabelled' a (fun change hchange => hdisturb change (hchange ▸ ha))
      hwithin' hwithin).symm

end Acting

/-! ## 4. Workspaces on files -/

/-- Nobody else leaves the directory tree in disorder, or goes to another directory. -/
def Action.Orderly : Action LocalFiles → Prop
  | .disturb change =>
    ∀ l, l.disk.Ready → (change l).disk.Ready ∧ (change l).disk.cwd = l.disk.cwd
  | _ => True

/-- All scopes share the first pool, and nobody else touches some units. -/
def Action.AloneAt (units : List Path) : Action LocalFiles → Prop
  | .addScope _ _ pool => pool = 0
  | .disturb change => ∀ u ∈ units, ∀ l,
    (change l).disk.contentAt ((change l).disk.spot u) = l.disk.contentAt (l.disk.spot u)
  | _ => True

section Files

variable [DecidableEq δ] [Digest δ] {units : List Path} {l : LocalFiles}

/-- **A course of events on files** is one on a shelf. It may begin where another one has
ended, so a course can be taken over in parts. -/
theorem exists_shelved {before allowed' : Action (Shelf units) → Prop}
    {allowed : Action LocalFiles → Prop} (horderly : ∀ a, allowed a → a.Orderly)
    (hallowed : ∀ a, allowed a → allowed' (a.carry Shelf.disturb))
    {shelved : Workspace (Shelf units) δ} (hshelved : shelved.Reachable before)
    {w : Workspace LocalFiles δ} (hsteps : Steps allowed (shelved.along Shelf.files) w)
    (hwithin : w.vault.Within (· ∈ units)) :
    ∃ shelved' : Workspace (Shelf units) δ,
      Steps allowed' shelved shelved' ∧ shelved'.along Shelf.files = w := by
  refine exists_carried (Shelf.standsFor units) (fun change hchange s => ?_) hallowed hshelved
    hsteps hwithin
  exact Shelf.files_disturb (horderly _ hchange s.files s.ready)

/-- Where nobody else touches the units nobody else does anything to the shelf. -/
theorem Action.AloneAt.carry {a : Action LocalFiles} (h : a.AloneAt units)
    (horderly : a.Orderly) : (a.carry Shelf.disturb : Action (Shelf units)).Alone := by
  cases a with
  | addScope => exact h
  | disturb change =>
    intro shelf location
    refine shelf.contents_congr (fun u hu => ?_) location
    rw [Shelf.files_disturb (horderly shelf.files shelf.ready)]
    exact h u hu shelf.files
  | _ => exact trivial

theorem exists_shelved_alone (hready : l.disk.Ready) (hunits : l.disk.Shelvable units)
    {w : Workspace LocalFiles δ}
    (hsteps : Steps (fun a => a.Orderly ∧ a.AloneAt units) (start l) w)
    (hwithin : w.vault.Within (· ∈ units)) :
    ∃ shelved : Workspace (Shelf units) δ,
      shelved.Reachable Action.Alone ∧ shelved.along Shelf.files = w := by
  have hempty : (start ⟨l, hready, hunits⟩ : Workspace (Shelf units) δ).Reachable Action.Alone :=
    ⟨_, .refl _⟩
  obtain ⟨shelved, hshelved, hw⟩ :=
    exists_shelved (fun a ha => ha.1) (fun a ha => ha.2.carry ha.1) hempty hsteps hwithin
  exact ⟨shelved, hempty.steps hshelved, hw⟩

/-- **Storages describe their files.** As long as nobody else touches the units of a
workspace, and these are apart, every storage in use describes what can be read from its
file. -/
theorem describes_file (hready : l.disk.Ready) (hunits : l.disk.Shelvable units)
    {w : Workspace LocalFiles δ}
    (hsteps : Steps (fun a => a.Orderly ∧ a.AloneAt units) (start l) w)
    (hwithin : w.vault.Within (· ∈ units)) {k : StorageId} {s : Storage δ}
    (hk : w.inUse k = true) (hs : w.vault.storage? k = some s) {content : Option Bytes}
    (hread : w.vault.backing.read s.unit = .ok content) : s.snapshot.Describes content := by
  obtain ⟨shelved, hshelved, rfl⟩ := exists_shelved_alone hready hunits hsteps hwithin
  have hread' : shelved.vault.backing.read s.unit = .ok content :=
    ((Shelf.standsFor units).read _ _ (hwithin.unit hs)).symm.trans hread
  rw [Shelf.read_ok hread']
  exact hshelved.coherent.2.2.describes k s hk hs

/-- **Own writes to files are not news.** A session that is at hand finds nothing to reload
in any changes, if the files it compares can be read. -/
theorem nothing_reloadable_on_files (hready : l.disk.Ready) (hunits : l.disk.Shelvable units)
    {w : Workspace LocalFiles δ}
    (hsteps : Steps (fun a => a.Orderly ∧ a.AloneAt units) (start l) w)
    (hwithin : w.vault.Within (· ∈ units)) {t : SessionTree (ScopeSession δ)}
    (ht : ∀ s ∈ t.parts, w.AtHand s) (changes : ChangeSet)
    (hreadable : ∀ slot, SessionTree.Affected changes t.parts slot →
      w.vault.Readable slot.storage) :
    (t.analyze changes w.vault).1 = .reloadable [] := by
  obtain ⟨shelved, hshelved, rfl⟩ := exists_shelved_alone hready hunits hsteps hwithin
  have hcoherent := hshelved.coherent.2.2
  rw [along_vault, (SessionTree.analyze_along (Shelf.standsFor units) changes hwithin t).1]
  have hhashes : ∀ slot, SessionTree.Affected changes t.parts slot →
      ∀ s, shelved.vault.storage? slot.storage = some s →
        s.snapshot.hash = (shelved.vault.contents s.unit.location).map Digest.ofBytes := by
    rintro slot ⟨part, hpart, hslot, _⟩ s hs
    have hinUse := ((atHand_along _ shelved part).mp (ht part hpart)).inUse hslot
    exact (hcoherent.describes _ s hinUse hs).hash
  rcases SessionTree.analyze_of_hashes changes hhashes with ⟨h, _⟩ | ⟨_, slot, hslot, hnot⟩
  · rw [h]
  · refine absurd (fun s hs => ?_) hnot
    rw [← (Shelf.standsFor units).read _ _ (hwithin.unit hs)]
    exact hreadable slot hslot s hs

end Files

end Workspace

end ScopedState
