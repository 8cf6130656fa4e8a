/-
`Proofs/Workspace/Action.lean` -- what can happen to a workspace.

A caller makes scopes, pools and registries, registers components, edits them,
reinitialises and saves, by one call or step by step in a session, and lets go
of what it does not need any more. Besides, the store may change on its own
account: it begins or ceases to refuse reads and writes, and somebody else may
edit its units. An action is any of these, and a course of events is any
sequence of actions that are possible in turn. All that is asked for is that
the scope an action is about is in use.

Most of what an action does is of no concern to what is proved of all courses
of events. Components come and go with their values, and path variables note
what they do not know. The rest of a workspace, apart from its vault, is its
outline; most actions leave the outline alone.
-/
import ScopedState.Proofs.Storage.Coherence
import ScopedState.Workspace
set_option autoImplicit false

namespace ScopedState

namespace Workspace

variable {β δ : Type}

/-! ## 1. Actions -/

/-- What can happen. -/
inductive Action (β : Type) where
  | addPool
  | addScope (name : String) (substitutor : Option Substitutor) (pool : PoolId)
  | addComponent (component : Component)
  | attach (scope : ScopeId)
  | list (registry : RegistryId) (scope : ScopeId)
  | unlist (registry : RegistryId) (scope : ScopeId)
  | release (scope : ScopeId)
  | releaseRegistry (registry : RegistryId)
  | register (scope : ScopeId) (component : ComponentId) (name template : String)
  /-- A component gets a new value, none, or begins or ceases to fail. -/
  | edit (component : ComponentId) (change : Component → Component)
  | expand (scope : ScopeId) (text : String) (forget : Bool)
  | reinit (scope : ScopeId) (names : List String) (reload : Bool)
  | save (scope : ScopeId)
  | openSession (handle : String) (scope : ScopeId)
  | saveSession (handle : String)
  | finishSession (handle : String)
  | resetSession (handle : String)
  | dropSession (handle : String)
  /-- The store begins or ceases to refuse reads or writes, or somebody else
  edits it. -/
  | disturb (change : β → β)

/-- The scope that has to be in use for an action. -/
def Action.scope? : Action β → Option ScopeId
  | .attach scope => some scope
  | .list _ scope => some scope
  | .register scope _ _ _ => some scope
  | .expand scope _ _ => some scope
  | .reinit scope _ _ => some scope
  | .save scope => some scope
  | .openSession _ scope => some scope
  | _ => none

/-- Whether an action is possible. -/
def Possible (w : Workspace β δ) (a : Action β) : Prop := ∀ id ∈ a.scope?, id ∈ w.live

instance (w : Workspace β δ) (a : Action β) : Decidable (w.Possible a) :=
  inferInstanceAs (Decidable (∀ id ∈ a.scope?, id ∈ w.live))

section Acting

variable [Backing β] [DecidableEq δ] [Digest δ]

/-- A call on the session with a handle. -/
def onSession (w : Workspace β δ) (handle : String)
    (call : SessionTree (ScopeSession δ) → Vault β δ → SessionTree (ScopeSession δ) × Vault β δ) :
    Workspace β δ :=
  match Bindings.get? w.sessions handle with
  | none => w
  | some t =>
    let out := call t w.vault
    { w with vault := out.2, sessions := Bindings.insert w.sessions handle out.1 }

/-- The workspace after an action. -/
def act (w : Workspace β δ) : Action β → Workspace β δ
  | .addPool => w.addPool.2
  | .addScope name substitutor pool => (w.addScope { name, substitutor, pool }).2
  | .addComponent component => { w with vault := (w.vault.addComponent component).2 }
  | .attach scope => (w.attach scope).2
  | .list registry scope => w.register registry scope
  | .unlist registry scope => w.unregister registry scope
  | .release scope => w.release scope
  | .releaseRegistry registry => w.releaseRegistry registry
  | .register scope component name template => (w.addComponent scope component name template).2
  | .edit component change => { w with vault := w.vault.modifyComponent component change }
  | .expand scope text forget => (w.expandEach scope text forget).2
  | .reinit scope names reload => (w.reinit scope names reload).2
  | .save scope => (w.save scope).2
  | .openSession handle scope =>
    { w with sessions := Bindings.insert w.sessions handle (w.startSave scope) }
  | .saveSession handle => w.onSession handle fun t v => ((t.save v).session, (t.save v).world)
  | .finishSession handle =>
    w.onSession handle fun t v => ((t.finish v).session, (t.finish v).world)
  | .resetSession handle => w.onSession handle fun t v => ((t.reset v).session, (t.reset v).world)
  | .dropSession handle => { w with sessions := Bindings.erase w.sessions handle }
  | .disturb change => { w with vault := { w.vault with backing := change w.vault.backing } }

/-- One workspace comes out of another by actions of some kind. -/
inductive Steps (allowed : Action β → Prop) : Workspace β δ → Workspace β δ → Prop where
  | refl (w : Workspace β δ) : Steps allowed w w
  | act {w w' : Workspace β δ} (a : Action β) :
      Steps allowed w w' → allowed a → w'.Possible a → Steps allowed w (w'.act a)

/-- A workspace without scopes, with one pool. -/
def start (backing : β) : Workspace β δ := { vault := { backing }, pools := [[]] }

/-- What some store and actions of some kind can lead to. -/
def Reachable (allowed : Action β → Prop) (w : Workspace β δ) : Prop :=
  ∃ backing : β, Steps allowed (start backing) w

/-- The workspace after a course of events. -/
def run (w : Workspace β δ) (actions : List (Action β)) : Workspace β δ := actions.foldl act w

/-- Whether each action of a course of events is possible in its turn. -/
def AllPossible (w : Workspace β δ) : List (Action β) → Prop
  | [] => True
  | a :: rest => w.Possible a ∧ AllPossible (w.act a) rest

instance decidableAllPossible : ∀ (w : Workspace β δ) (actions : List (Action β)),
    Decidable (w.AllPossible actions)
  | _, [] => isTrue trivial
  | w, a :: rest =>
    have := decidableAllPossible (w.act a) rest
    inferInstanceAs (Decidable (w.Possible a ∧ AllPossible (w.act a) rest))

/-- **An induction over courses of events.** -/
theorem Steps.preserves {allowed : Action β → Prop} (inv : Workspace β δ → Prop)
    (hact : ∀ w a, inv w → allowed a → w.Possible a → inv (w.act a)) {w w' : Workspace β δ}
    (hsteps : Steps allowed w w') (h : inv w) : inv w' := by
  induction hsteps with
  | refl => exact h
  | act a _ hallowed hpossible ih => exact hact _ a ih hallowed hpossible

theorem Steps.trans {allowed : Action β → Prop} {w w' w'' : Workspace β δ}
    (h : Steps allowed w w') (h' : Steps allowed w' w'') : Steps allowed w w'' := by
  induction h' with
  | refl => exact h
  | act a _ hallowed hpossible ih => exact .act a ih hallowed hpossible

/-- A course of events leads from one workspace to another. -/
theorem steps_run {allowed : Action β → Prop} {w : Workspace β δ} {actions : List (Action β)}
    (hallowed : ∀ a ∈ actions, allowed a) (h : w.AllPossible actions) :
    Steps allowed w (w.run actions) := by
  induction actions generalizing w with
  | nil => exact .refl w
  | cons a rest ih =>
    obtain ⟨hpossible, hrest⟩ := h
    have hfirst : Steps allowed w (w.act a) :=
      .act a (.refl w) (hallowed a List.mem_cons_self) hpossible
    exact hfirst.trans (ih (fun b hb => hallowed b (List.mem_cons_of_mem _ hb)) hrest)

theorem Reachable.steps {allowed : Action β → Prop} {w w' : Workspace β δ}
    (h : w.Reachable allowed) (hsteps : Steps allowed w w') : w'.Reachable allowed := by
  obtain ⟨backing, hstart⟩ := h
  exact ⟨backing, hstart.trans hsteps⟩

end Acting

/-- Anything may happen. -/
def Action.Any : Action β → Prop := fun _ => True

/-- All scopes share the first pool. Otherwise anything may happen. -/
def Action.OnePool : Action β → Prop
  | .addScope _ _ pool => pool = 0
  | _ => True

/-- All scopes share the first pool, and nobody else edits the store. -/
def Action.Alone [Backing β] [LawfulBacking β] : Action β → Prop
  | .addScope _ _ pool => pool = 0
  | .disturb change => ∀ b l, LawfulBacking.contents (change b) l = LawfulBacking.contents b l
  | _ => True

/-! ## 2. Going out of use -/

/-- What a round of taking out of use keeps is kept by settling. -/
theorem settle_preserves (inv : Workspace β δ → Prop) (hsweep : ∀ w, inv w → inv w.sweep)
    {w : Workspace β δ} (h : inv w) : inv w.settle := by
  unfold settle
  generalize w.scopes = rounds
  induction rounds generalizing w with
  | nil => exact h
  | cons round rounds ih => exact ih (hsweep w h)

theorem settle_vault (w : Workspace β δ) : w.settle.vault = w.vault :=
  settle_preserves (fun w' => w'.vault = w.vault) (fun _ h => h) rfl

/-! ## 3. Outlines -/

/-- A workspace apart from its vault and the path variables of its scopes. -/
def outline (w : Workspace β δ) : Workspace Unit δ :=
  { vault := { backing := () }
    scopes := w.scopes.map fun s => { s with substitutor := none }
    registries := w.registries
    pools := w.pools
    held := w.held
    heldRegistries := w.heldRegistries
    live := w.live
    sessions := w.sessions }

theorem scope?_modifyScope (w : Workspace β δ) (id : ScopeId) (f : Scope → Scope) (k : ScopeId) :
    (w.modifyScope id f).scope? k = if k = id then (w.scope? k).map f else w.scope? k := by
  rw [scope?, modifyScope, List.getElem?_modify]
  by_cases hk : k = id
  · simp only [if_pos hk, if_pos hk.symm, Option.map_eq_map]
    rfl
  · simp only [if_neg hk, if_neg (Ne.symm hk), Option.map_eq_map, Option.map_id']
    rfl

/-- What holds of all scopes still holds after one has changed, if the change
keeps it. -/
theorem forall_mem_modifyScope {w : Workspace β δ} {P : Scope → Prop} (h : ∀ s ∈ w.scopes, P s)
    (id : ScopeId) {f : Scope → Scope} (hf : ∀ s, P s → P (f s)) :
    ∀ s ∈ (w.modifyScope id f).scopes, P s := by
  intro s hs
  obtain ⟨k, hk⟩ := List.mem_iff_getElem?.mp hs
  have hk' : (w.modifyScope id f).scope? k = some s := hk
  rw [scope?_modifyScope] at hk'
  split at hk'
  · obtain ⟨t, ht, rfl⟩ := Option.map_eq_some_iff.mp hk'
    exact hf t (h t (List.mem_of_getElem? ht))
  · exact h s (List.mem_of_getElem? hk')

theorem scope?_outline (w : Workspace β δ) (k : ScopeId) :
    w.outline.scope? k = (w.scope? k).map fun s => { s with substitutor := none } :=
  List.getElem?_map

/-- Workspaces of one outline have the same scopes, path variables apart. -/
theorem exists_scope_of_outline {w w' : Workspace β δ} (h : w'.outline = w.outline) {s : Scope}
    (hs : s ∈ w'.scopes) :
    ∃ t ∈ w.scopes, ({ t with substitutor := none } : Scope) = { s with substitutor := none } := by
  have hscopes : w'.outline.scopes = w.outline.scopes := congrArg Workspace.scopes h
  have hbare : { s with substitutor := none } ∈ w.outline.scopes := by
    rw [← hscopes]
    exact List.mem_map_of_mem hs
  exact List.mem_map.mp hbare

/-- Scopes that differ in path variables only have the same components. -/
theorem components_of_outline {w w' : Workspace β δ} (h : w'.outline = w.outline) (id : ScopeId) :
    (w'.scope? id).map Scope.components = (w.scope? id).map Scope.components := by
  have hscope : (w'.outline.scope? id).map Scope.components
      = (w.outline.scope? id).map Scope.components := by rw [h]
  rw [scope?_outline, scope?_outline, Option.map_map, Option.map_map] at hscope
  exact hscope

/-- **The tree below a scope** can be read off the outline, whatever the store is. -/
theorem tree_of_outline {β' : Type} {w : Workspace β δ} {w' : Workspace β' δ}
    (h : w'.outline = w.outline) (root : ScopeId) :
    w'.tree root = w.tree root := by
  have hlength : w'.scopes.length = w.scopes.length := by
    have hscopes : w'.outline.scopes.length = w.outline.scopes.length := by rw [h]
    rwa [outline, outline, List.length_map, List.length_map] at hscopes
  have hregistries : w'.registries = w.registries :=
    congrArg (fun o : Workspace Unit δ => o.registries) h
  have hchildren : ∀ id, w'.children id = w.children id := by
    intro id
    have hscope : (w'.outline.scope? id).bind Scope.registry
        = (w.outline.scope? id).bind Scope.registry := by rw [h]
    rw [scope?_outline, scope?_outline, Option.bind_map, Option.bind_map] at hscope
    have hregistry : (w'.scope? id).bind Scope.registry = (w.scope? id).bind Scope.registry :=
      hscope
    unfold children listed
    rw [hregistry, hregistries]
  have hwithin : ∀ fuel id, w'.treeWithin fuel id = w.treeWithin fuel id := by
    intro fuel
    induction fuel with
    | zero => exact fun _ => rfl
    | succ fuel ih =>
      intro id
      rw [treeWithin, treeWithin, hchildren, funext ih]
  rw [tree, tree, hlength, hwithin]

/-- Path variables are not in the outline. -/
theorem outline_setSubstitutor (w : Workspace β δ) (id : ScopeId) (sub : Option Substitutor) :
    (w.modifyScope id fun s => { s with substitutor := sub }).outline = w.outline := by
  -- Scope by scope: the one that changes loses what was set, the others are as before.
  have hscopes : (w.modifyScope id fun s => { s with substitutor := sub }).outline.scopes
      = w.outline.scopes := by
    refine List.ext_getElem? fun k => ?_
    have h := scope?_outline (w.modifyScope id fun s => { s with substitutor := sub }) k
    rw [scope?_modifyScope] at h
    refine h.trans (Eq.trans ?_ (scope?_outline w k).symm)
    split
    · rw [Option.map_map]
      rfl
    · rfl
  rw [outline, outline, Workspace.mk.injEq]
  exact ⟨rfl, hscopes, rfl, rfl, rfl, rfl, rfl, rfl⟩

/-- What is in use depends on the outline. -/
theorem inUse_outline (w : Workspace β δ) : w.outline.inUse = w.inUse := by
  funext k
  rw [inUse, inUse]
  congr 1
  have hscope : ∀ id, ((w.outline.scope? id).any fun s => s.holds k)
      = (w.scope? id).any fun s => s.holds k := by
    intro id
    rw [scope?_outline]
    cases w.scope? id <;> rfl
  simp only [hscope]
  rfl

theorem isConsulted_outline (w : Workspace β δ) : w.outline.isConsulted = w.isConsulted := by
  funext r
  rw [isConsulted, isConsulted]
  congr 1
  have hscope : ∀ id, ((w.outline.scope? id).any fun s => decide (s.registry = some r))
      = (w.scope? id).any fun s => decide (s.registry = some r) := by
    intro id
    rw [scope?_outline]
    cases w.scope? id <;> rfl
  simp only [hscope]
  rfl

theorem inUse_of_outline {w w' : Workspace β δ} (h : w'.outline = w.outline) :
    w'.inUse = w.inUse := by
  rw [← inUse_outline, h, inUse_outline]

end Workspace

end ScopedState
