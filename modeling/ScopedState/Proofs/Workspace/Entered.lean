/-
`Proofs/Workspace/Entered.lean` -- what it takes to register a component, and what
comes of it.

A component is registered in a scope with path variables if the scope has none of
its name, and if the unit that its template names is in use already or can be read.
Then the scope has an entry for it; the scope maps the unit to the storage of the
entry, which is one that was there or a new one with what was read; and the
component has been handed what this storage remembers for it. Everything else is as
it was: the other scopes, the registries, what is in use, and the store.

All of this is said once (`Entered`), so that whatever is kept by registering can be
read off it.
-/
import ScopedState.Proofs.Workspace.Touched
set_option autoImplicit false

namespace ScopedState

open Bindings (get?)

variable {β δ : Type}

/-! ## 1. Views -/

/-- What registering leaves alone in a scope. -/
def Scope.frame (s : Scope) : String × Option MacroTable × PoolId × Option RegistryId :=
  (s.name, s.substitutor.map Substitutor.table, s.pool, s.registry)

namespace Workspace

/-- The entry of a component. -/
def entryOf? (w : Workspace β δ) (id : ScopeId) (name : String) : Option Entry :=
  (w.scope? id).bind fun s => get? s.components name

/-- The storage that a scope maps a location to. -/
def mapped? (w : Workspace β δ) (id : ScopeId) (l : Location) : Option StorageId :=
  (w.scope? id).bind fun s => (get? s.storages l).map Prod.snd

/-- The path variables of a scope. -/
def tableOf? (w : Workspace β δ) (id : ScopeId) : Option MacroTable :=
  (w.scope? id).bind fun s => s.substitutor.map Substitutor.table

/-- What registering leaves alone in a workspace. -/
structure Framed (w w' : Workspace β δ) : Prop where
  scopes : w'.scopes.map Scope.frame = w.scopes.map Scope.frame
  registries : w'.registries = w.registries
  held : w'.held = w.held
  heldRegistries : w'.heldRegistries = w.heldRegistries
  live : w'.live = w.live
  sessions : w'.sessions = w.sessions
  pools : w'.pools.length = w.pools.length
  backing : w'.vault.backing = w.vault.backing

namespace Framed

variable {w w' w'' : Workspace β δ}

theorem refl (w : Workspace β δ) : Framed w w := ⟨rfl, rfl, rfl, rfl, rfl, rfl, rfl, rfl⟩

theorem trans (h : Framed w w') (h' : Framed w' w'') : Framed w w'' :=
  ⟨h'.scopes.trans h.scopes, h'.registries.trans h.registries, h'.held.trans h.held,
    h'.heldRegistries.trans h.heldRegistries, h'.live.trans h.live, h'.sessions.trans h.sessions,
    h'.pools.trans h.pools, h'.backing.trans h.backing⟩

/-- The frame of a scope. -/
theorem frame (h : Framed w w') (id : ScopeId) :
    (w'.scope? id).map Scope.frame = (w.scope? id).map Scope.frame := by
  rw [scope?, scope?, ← List.getElem?_map, ← List.getElem?_map, h.scopes]

/-- The registry of a scope. -/
theorem registry (h : Framed w w') (id : ScopeId) :
    (w'.scope? id).bind Scope.registry = (w.scope? id).bind Scope.registry := by
  have hframe : ∀ s : Option Scope,
      s.bind Scope.registry = (s.map Scope.frame).bind fun f => f.2.2.2 := by
    intro s
    cases s <;> rfl
  rw [hframe, hframe, h.frame]

/-- The path variables of a scope. -/
theorem tableOf? (h : Framed w w') (id : ScopeId) : w'.tableOf? id = w.tableOf? id := by
  have hframe : ∀ s : Option Scope, (s.bind fun s => s.substitutor.map Substitutor.table)
      = (s.map Scope.frame).bind fun f => f.2.1 := by
    intro s
    cases s <;> rfl
  rw [Workspace.tableOf?, Workspace.tableOf?, hframe, hframe, h.frame]

theorem length (h : Framed w w') : w'.scopes.length = w.scopes.length := by
  have hlength := congrArg List.length h.scopes
  rwa [List.length_map, List.length_map] at hlength

/-- A scope changes, but not in its frame. -/
theorem modifyScope (w : Workspace β δ) (id : ScopeId) {f : Scope → Scope}
    (hf : ∀ s, w.scope? id = some s → (f s).frame = s.frame) : Framed w (w.modifyScope id f) := by
  refine { refl w with scopes := List.ext_getElem? fun k => ?_ }
  rw [List.getElem?_map, List.getElem?_map]
  show ((w.modifyScope id f).scope? k).map Scope.frame = (w.scope? k).map Scope.frame
  rw [scope?_modifyScope]
  split
  · rename_i hk
    cases hs : w.scope? k with
    | none => rfl
    | some s =>
      rw [hk] at hs
      rw [Option.map_some, Option.map_some, Option.map_some, hf s hs]
  · rfl

end Framed

section Views

variable (w : Workspace β δ) (id : ScopeId) {f : Scope → Scope}

theorem entryOf?_modifyScope (j : ScopeId) (m : String) :
    (w.modifyScope id f).entryOf? j m
      = if j = id then ((w.scope? j).map f).bind fun s => get? s.components m else w.entryOf? j m := by
  rw [entryOf?, scope?_modifyScope]
  split
  · rfl
  · rfl

/-- A scope changes, but not in its components. -/
theorem entryOf?_of_components (hf : ∀ s, (f s).components = s.components) :
    (w.modifyScope id f).entryOf? = w.entryOf? := by
  funext j m
  rw [entryOf?_modifyScope]
  split
  · rw [entryOf?, Option.bind_map]
    congr 1
    funext s
    rw [Function.comp_apply, hf]
  · rfl

theorem mapped?_modifyScope (j : ScopeId) (l : Location) :
    (w.modifyScope id f).mapped? j l
      = if j = id then ((w.scope? j).map f).bind fun s => (get? s.storages l).map Prod.snd
        else w.mapped? j l := by
  rw [mapped?, scope?_modifyScope]
  split
  · rfl
  · rfl

/-- A scope changes, but not in its storages. -/
theorem mapped?_of_storages (hf : ∀ s, (f s).storages = s.storages) :
    (w.modifyScope id f).mapped? = w.mapped? := by
  funext j l
  rw [mapped?_modifyScope]
  split
  · rw [mapped?, Option.bind_map]
    congr 1
    funext s
    rw [Function.comp_apply, hf]
  · rfl

end Views

section Outlines

variable {w w' : Workspace β δ}

/-- What scopes have can be read off the outline, their components here. -/
theorem entryOf?_of_outline (h : w'.outline = w.outline) : w'.entryOf? = w.entryOf? := by
  funext id n
  have hentry : ∀ o : Option Scope, (o.bind fun s => get? s.components n)
      = (o.map Scope.components).bind fun components => get? components n := by
    intro o
    cases o <;> rfl
  rw [entryOf?, entryOf?, hentry, hentry, components_of_outline h]

theorem mapped?_of_outline (h : w'.outline = w.outline) : w'.mapped? = w.mapped? := by
  funext id l
  have hmapped : ∀ o : Option Scope, (o.bind fun s => (get? s.storages l).map Prod.snd)
      = (o.map Scope.storages).bind fun storages => (get? storages l).map Prod.snd := by
    intro o
    cases o <;> rfl
  rw [mapped?, mapped?, hmapped, hmapped, storages_of_outline h]

end Outlines

/-! ## 2. The storage of a unit -/

section Registering

variable [Backing β] [DecidableEq δ] [Digest δ] {w w' : Workspace β δ} {id : ScopeId} {s : Scope}
  {sub : Substitutor} {name template : String} {unit : Path} {k : StorageId} {p : PoolId}

/-- Where the storage of a unit comes from. -/
inductive Provided (w w' : Workspace β δ) (id : ScopeId) (p : PoolId) (unit : Path)
    (template : String) (k : StorageId) : Prop where
  /-- The scope has it, or the pool does. -/
  | known (storages : w'.vault.storages = w.vault.storages) (pools : w'.pools = w.pools)
      (found : w.mapped? id unit.location = some k ∨ get? (w.pool p) unit.location = some k)
  /-- The unit is read. -/
  | loaded (snapshot : Snapshot δ) (read : w.vault.readSnapshot unit = .ok snapshot)
      (number : k = w.vault.storages.length)
      (storages : w'.vault.storages = w.vault.storages ++ [⟨unit, template, snapshot⟩])
      (unused : (w.pool p).find? w.inUse unit = none)
      (pools : w'.pools = w.pools.set p (Bindings.insert (w.pool p) unit.location k))

omit [DecidableEq δ] in
/-- A storage that was there stays. -/
theorem Provided.storage? (h : Provided w w' id p unit template k) {j : StorageId} {st : Storage δ}
    (hst : w.vault.storage? j = some st) : w'.vault.storage? j = some st := by
  cases h with
  | known storages pools found =>
    rw [Vault.storage?, storages]
    exact hst
  | loaded snapshot read number storages unused pools =>
    rw [Vault.storage?, storages]
    exact (List.getElem?_append_left (List.getElem?_eq_some_iff.mp hst).1).trans hst

omit [DecidableEq δ] in
theorem Provided.location? (h : Provided w w' id p unit template k) {j : StorageId} {l : Location}
    (hl : w.vault.location? j = some l) : w'.vault.location? j = some l := by
  obtain ⟨u, hu, rfl⟩ := Option.map_eq_some_iff.mp hl
  obtain ⟨st, hst, rfl⟩ := Vault.unit?_eq_some hu
  exact Vault.location?_of_unit? (Vault.unit?_of_storage? (h.storage? hst))

/-- A scope has got the storage of a unit. -/
structure Obtained (w w' : Workspace β δ) (id : ScopeId) (p : PoolId) (unit : Path)
    (template : String) (k : StorageId) : Prop where
  framed : Framed w w'
  entry : w'.entryOf? = w.entryOf?
  mapped : ∀ j l, w'.mapped? j l
    = if j = id ∧ l = unit.location then some k else w.mapped? j l
  components : w'.vault.components = w.vault.components
  storage : Provided w w' id p unit template k

omit [Backing β] [DecidableEq δ] [Digest δ] in
/-- A scope that maps a unit. -/
theorem mapUnit_views (hs : w.scope? id = some s) (unit : Path) (k : StorageId) :
    Framed w (w.mapUnit id unit k) ∧ (w.mapUnit id unit k).entryOf? = w.entryOf? ∧
      ∀ j l, (w.mapUnit id unit k).mapped? j l
        = if j = id ∧ l = unit.location then some k else w.mapped? j l := by
  refine ⟨Framed.modifyScope w id fun _ _ => rfl, entryOf?_of_components w id fun _ => rfl,
    fun j l => ?_⟩
  rw [mapUnit, mapped?_modifyScope]
  by_cases hj : j = id
  · rw [if_pos hj, hj, hs, Option.map_some, Option.bind_some, Bindings.get?_insert, mapped?, hs,
      Option.bind_some]
    by_cases hl : l = unit.location
    · rw [if_pos hl, if_pos ⟨rfl, hl⟩, Option.map_some]
    · rw [if_neg hl, if_neg fun h => hl h.2]
  · rw [if_neg hj, if_neg fun h => hj h.1]

theorem storageFor_obtained (hs : w.scope? id = some s)
    (h : w.storageFor id s unit template = .ok (k, w')) :
    Obtained w w' id s.pool unit template k := by
  rcases storageFor_cases h with
    ⟨u, hmapped, hsame⟩ | ⟨_, ⟨hpool, _, rfl⟩ | ⟨snapshot, hfind, hread, hk, rfl⟩⟩
  · have hhas : w.mapped? id unit.location = some k := by
      rw [mapped?, hs, Option.bind_some, hmapped]
      rfl
    rw [hsame]
    refine ⟨Framed.refl w, rfl, fun j l => ?_, rfl, .known rfl rfl (Or.inl hhas)⟩
    split
    · rename_i hjl
      rw [hjl.1, hjl.2, hhas]
    · rfl
  · obtain ⟨hframed, hentry, hmapped⟩ := mapUnit_views hs unit k
    exact ⟨hframed, hentry, hmapped, rfl, .known rfl rfl (Or.inr hpool)⟩
  · let st : Storage δ := { unit, template, snapshot }
    have hs' : (w.addStorage s.pool st).scope? id = some s := hs
    obtain ⟨hframed, hentry, hmapped⟩ := mapUnit_views hs' unit k
    have hadded : Framed w (w.addStorage s.pool st) :=
      { Framed.refl w with pools := List.length_set }
    refine ⟨hadded.trans hframed, hentry, hmapped, rfl, .loaded snapshot hread hk rfl hfind ?_⟩
    rw [hk]
    rfl

/-- **A unit that can be read gets a storage.** -/
theorem storageFor_isOk {snapshot : Snapshot δ} (hread : w.vault.readSnapshot unit = .ok snapshot) :
    ∃ out, w.storageFor id s unit template = .ok out := by
  unfold storageFor
  cases hmapped : get? s.storages unit.location with
  | some e => exact ⟨_, rfl⟩
  | none =>
    simp only []
    unfold Pool.obtain
    cases hfind : (w.pool s.pool).find? w.inUse unit with
    | some j => exact ⟨_, rfl⟩
    | none =>
      simp only [hread]
      exact ⟨_, rfl⟩

omit [DecidableEq δ] in
/-- Nothing that matters to it has changed before or after. -/
theorem Provided.congr {w₁ w₂ : Workspace β δ} (h : Provided w₁ w₂ id p unit template k)
    (houtline : w₁.outline = w.outline) (hvault : w₁.vault = w.vault)
    (hmapped : w₁.mapped? = w.mapped?) (hstorages : w'.vault.storages = w₂.vault.storages)
    (hpools : w'.pools = w₂.pools) : Provided w w' id p unit template k := by
  have hpools₁ : w₁.pools = w.pools := congrArg (fun o : Workspace Unit δ => o.pools) houtline
  have hpool : w₁.pool p = w.pool p := by rw [pool, pool, hpools₁]
  cases h with
  | known storages pools found =>
    refine .known ?_ (hpools.trans (pools.trans hpools₁)) ?_
    · rw [hstorages, storages, hvault]
    · rwa [← hmapped, ← hpool]
  | loaded snapshot read number storages unused pools =>
    refine .loaded snapshot ?_ ?_ ?_ ?_ ?_
    · rwa [← hvault]
    · rwa [← hvault]
    · rw [hstorages, storages, hvault]
    · rwa [← hpool, ← inUse_of_outline houtline]
    · rw [hpools, pools, hpools₁, hpool]

/-! ## 3. The component -/

/-- **A component has been registered**: in the scope `id` with the variables `table`,
under `name`, for the unit that `template` names. -/
structure Entered (w w' : Workspace β δ) (id : ScopeId) (table : MacroTable) (p : PoolId)
    (name : String) (e : Entry) (unit : Path) (template : String) : Prop where
  framed : Framed w w'
  entry : ∀ j m, w'.entryOf? j m = if j = id ∧ m = name then some e else w.entryOf? j m
  mapped : ∀ j l, w'.mapped? j l
    = if j = id ∧ l = unit.location then some e.storage else w.mapped? j l
  storage : Provided w w' id p unit template e.storage
  component : ∀ c, w'.vault.component? c
    = if c = e.component then (w.vault.component? c).map fun x => x.load
        (((w'.vault.storage? e.storage).bind fun st => st.state? name).map table.expandValue)
      else w.vault.component? c

omit [DecidableEq δ] in
/-- The unit of a new entry is the one that was asked for, as the scope has mapped that to
the storage of the entry. -/
theorem Entered.location? {table : MacroTable} {e : Entry}
    (h : Entered w w' id table p name e unit template) (hkept : w'.Kept) :
    w'.vault.location? e.storage = some unit.location := by
  have hmapped := (h.mapped id unit.location).trans (if_pos ⟨rfl, rfl⟩)
  obtain ⟨s, hs, hmapped⟩ := Option.bind_eq_some_iff.mp hmapped
  obtain ⟨⟨u, k⟩, hentry, hk⟩ := Option.map_eq_some_iff.mp hmapped
  exact (hkept.scope hs).located _ u _ (hentry.trans (congrArg (fun k => some (u, k)) hk))

omit [Backing β] [DecidableEq δ] [Digest δ] in
/-- What is stored is handed to the component, references turned into paths. -/
theorem loadComponent_views (hs : w.scope? id = some s) (hsub : s.substitutor = some sub)
    (name : String) (e : Entry) :
    Framed w (w.loadComponent id name e) ∧ (w.loadComponent id name e).entryOf? = w.entryOf? ∧
      (w.loadComponent id name e).mapped? = w.mapped? ∧
      (w.loadComponent id name e).vault.storages = w.vault.storages ∧
      (w.loadComponent id name e).pools = w.pools ∧
      ∀ c, (w.loadComponent id name e).vault.component? c
        = if c = e.component then (w.vault.component? c).map fun x => x.load
            (((w.vault.storage? e.storage).bind fun st => st.state? name).map
              sub.table.expandValue)
          else w.vault.component? c := by
  unfold loadComponent
  cases hstate : (w.vault.storage? e.storage).bind fun st => st.state? name with
  | none =>
    exact ⟨⟨rfl, rfl, rfl, rfl, rfl, rfl, rfl, rfl⟩, rfl, rfl, rfl, rfl,
      fun c => w.vault.component?_modifyComponent _ _ c⟩
  | some stored =>
    have hexpand : Substitutor.expandWith ((w.scope? id).bind Scope.substitutor) stored
        = (sub.table.expandValue stored, some (sub.expandValue stored).2) := by
      rw [hs, Option.bind_some, hsub]
      rfl
    simp only [hexpand]
    refine ⟨?_, entryOf?_of_components _ id fun _ => rfl, mapped?_of_storages _ id fun _ => rfl, rfl,
      rfl, fun c => w.vault.component?_modifyComponent _ _ c⟩
    let loaded : Workspace β δ := { w with
      vault := w.vault.modifyComponent e.component fun c =>
        c.load (some (sub.table.expandValue stored)) }
    have hloaded : Framed w loaded := ⟨rfl, rfl, rfl, rfl, rfl, rfl, rfl, rfl⟩
    refine hloaded.trans (Framed.modifyScope loaded id fun t ht => ?_)
    have hts : t = s := Option.some.inj (Eq.trans (Eq.symm ht) hs)
    rw [Scope.frame, Scope.frame, hts, hsub]
    rfl

/-- A scope with an entry. -/
def enter (w : Workspace β δ) (id : ScopeId) (name : String) (e : Entry) : Workspace β δ :=
  w.modifyScope id fun s => { s with components := Bindings.insert s.components name e }

omit [Backing β] [DecidableEq δ] [Digest δ] in
theorem enter_views (hs : w.scope? id = some s) (name : String) (e : Entry) :
    Framed w (w.enter id name e) ∧ (w.enter id name e).mapped? = w.mapped? ∧
      ∀ j m, (w.enter id name e).entryOf? j m
        = if j = id ∧ m = name then some e else w.entryOf? j m := by
  refine ⟨Framed.modifyScope w id fun _ _ => rfl, mapped?_of_storages w id fun _ => rfl,
    fun j m => ?_⟩
  rw [enter, entryOf?_modifyScope]
  by_cases hj : j = id
  · rw [if_pos hj, hj, hs, Option.map_some, Option.bind_some, Bindings.get?_insert, entryOf?, hs,
      Option.bind_some]
    by_cases hm : m = name
    · rw [if_pos hm, if_pos ⟨rfl, hm⟩]
    · rw [if_neg hm, if_neg fun h => hm h.2]
  · rw [if_neg hj, if_neg fun h => hj h.1]

omit [Backing β] [DecidableEq δ] [Digest δ] in
/-- A template is expanded by the variables of its scope. -/
theorem expandTemplate_views (hs : w.scope? id = some s) (hsub : s.substitutor = some sub)
    (template : String) :
    (w.expandTemplate id template).1 = ⟨sub.table.expand template⟩ ∧
      Framed w (w.expandTemplate id template).2 ∧
      (w.expandTemplate id template).2.entryOf? = w.entryOf? ∧
      (w.expandTemplate id template).2.mapped? = w.mapped? ∧
      (w.expandTemplate id template).2.scope? id
        = some { s with substitutor := some (sub.expand template).2 } := by
  have hbind : (w.scope? id).bind Scope.substitutor = some sub := by
    rw [hs, Option.bind_some, hsub]
  unfold expandTemplate
  simp only [hbind]
  refine ⟨rfl, Framed.modifyScope w id fun t ht => ?_, entryOf?_of_components w id fun _ => rfl,
    mapped?_of_storages w id fun _ => rfl, ?_⟩
  · rw [hs] at ht
    rw [Scope.frame, Scope.frame, ← Option.some.inj ht, hsub]
    rfl
  · rw [scope?_modifyScope, if_pos rfl, hs]
    rfl

/-- Without a scope there is nothing to register in. -/
theorem addComponent_of_absent (hs : w.scope? id = none) (component : ComponentId)
    (name template : String) :
    w.addComponent id component name template = (.ok ⟨template⟩, w) := by
  simp [addComponent, expandTemplate, hs]

/-- A name that the scope has is refused. -/
theorem addComponent_of_bound (hs : w.scope? id = some s) (component : ComponentId)
    (hbound : (get? s.components name).isSome = true) (template : String) :
    w.addComponent id component name template = (.error (.duplicateComponent name), w) := by
  have hany : ((w.scope? id).any fun s => Bindings.binds s.components name) = true := by
    rw [hs]
    exact hbound
  rw [addComponent, if_pos hany]

/-- **Registering a component** gives the unit and enters the component, or fails for
want of a storage. -/
theorem addComponent_spec (hs : w.scope? id = some s) (hsub : s.substitutor = some sub)
    (component : ComponentId) (hnew : get? s.components name = none) (template : String) :
    ((w.addComponent id component name template).1 = .ok ⟨sub.table.expand template⟩ ∧
        ∃ k, Entered w (w.addComponent id component name template).2 id sub.table s.pool name
          ⟨component, k⟩ ⟨sub.table.expand template⟩ template) ∨
      ((∃ e, (w.addComponent id component name template).1 = .error e) ∧
        ∀ snapshot, w.vault.readSnapshot ⟨sub.table.expand template⟩ ≠ .ok snapshot) := by
  obtain ⟨hunit, hexpanded, hentry₁, hmapped₁, hs₁⟩ := expandTemplate_views hs hsub template
  obtain ⟨houtline₁, hvault₁⟩ := w.expandTemplate_effect id template
  have hany : ¬ ((w.scope? id).any fun s => Bindings.binds s.components name) = true := by
    rw [hs, Option.any_some, Bindings.binds, hnew]
    exact Bool.false_ne_true
  have hpair : w.expandTemplate id template
      = (⟨sub.table.expand template⟩, (w.expandTemplate id template).2) := Prod.ext hunit rfl
  rw [addComponent, if_neg hany, hpair]
  simp only [hs₁]
  generalize (w.expandTemplate id template).2 = w₁ at *
  cases hstorage : w₁.storageFor id { s with substitutor := some (sub.expand template).2 }
      ⟨sub.table.expand template⟩ template with
  | error e =>
    refine Or.inr ⟨⟨e, rfl⟩, fun snapshot hread => ?_⟩
    rw [← hvault₁] at hread
    obtain ⟨out, hout⟩ := storageFor_isOk hread
    rw [hout] at hstorage
    cases hstorage
  | ok found =>
    obtain ⟨k, w₂⟩ := found
    have hobtained := storageFor_obtained hs₁ hstorage
    -- The scope has the same variables as before.
    obtain ⟨t, ht, htable⟩ : ∃ t, w₂.scope? id = some t ∧
        t.substitutor.map Substitutor.table = some sub.table := by
      have hframe := hobtained.framed.frame id
      rw [hs₁, Option.map_some] at hframe
      obtain ⟨t, ht, hframe⟩ := Option.map_eq_some_iff.mp hframe
      exact ⟨t, ht, congrArg (fun f => f.2.1) hframe⟩
    obtain ⟨sub₂, hsub₂, htable⟩ := Option.map_eq_some_iff.mp htable
    obtain ⟨hframed, hentry, hmapped, hstorages, hpools, hcomponent⟩ :=
      loadComponent_views ht hsub₂ name ⟨component, k⟩
    refine Or.inl ⟨rfl, k, ?_⟩
    obtain ⟨u, hu, _⟩ := Option.map_eq_some_iff.mp
      ((hframed.frame id).trans (congrArg (Option.map Scope.frame) ht))
    obtain ⟨hentered, hmapped₃, hentry₃⟩ := enter_views hu name ⟨component, k⟩
    show Entered w ((w₂.loadComponent id name ⟨component, k⟩).enter id name ⟨component, k⟩) id
      sub.table s.pool name ⟨component, k⟩ ⟨sub.table.expand template⟩ template
    refine ⟨?_, fun j m => ?_, fun j l => ?_, ?_, fun c => ?_⟩
    · exact hexpanded.trans (hobtained.framed.trans (hframed.trans hentered))
    · rw [hentry₃, hentry, hobtained.entry, hentry₁]
    · rw [hmapped₃, hmapped, hobtained.mapped, hmapped₁]
    · exact hobtained.storage.congr houtline₁ hvault₁ hmapped₁ hstorages hpools
    · have hbefore : w₂.vault.component? c = w.vault.component? c := by
        rw [Vault.component?, Vault.component?, hobtained.components, hvault₁]
      have hstorage? : ((w₂.loadComponent id name ⟨component, k⟩).enter id name
          ⟨component, k⟩).vault.storage? k = w₂.vault.storage? k :=
        congrArg (fun l => l[k]?) hstorages
      rw [hstorage?, ← htable, ← hbefore]
      exact hcomponent c

end Registering

end Workspace

end ScopedState
