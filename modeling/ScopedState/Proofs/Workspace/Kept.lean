/-
`Proofs/Workspace/Kept.lean` -- scopes and pools in order.

In every workspace that actions lead to, the units of a scope stand in order,
each under its location and with a storage that is about that location; the
components stand in the order of their names, and each is in a storage of its
scope; and a pool has a storage about a location only under that location. No
matter what else happens, a storage stays about its unit, so this is kept by
adding to it: the one action that does is registering a component.

Anything may happen here. The store may refuse what it likes, others may edit
it, and the scopes may be spread over any number of pools.
-/
import ScopedState.Proofs.Workspace.Opening
set_option autoImplicit false

namespace ScopedState

open Bindings (Sorted get?)

variable {β δ : Type}

/-! ## 1. One scope, one pool -/

/-- A scope in order. -/
structure Scope.Kept (s : Scope) (v : Vault β δ) : Prop where
  storages : Sorted s.storages
  components : Sorted s.components
  located : ∀ l u k, get? s.storages l = some (u, k) → v.location? k = some l
  mapped : ∀ n e, get? s.components n = some e →
    ∃ l u, get? s.storages l = some (u, e.storage)

/-- A pool in order. -/
def Pool.Kept (p : Pool) (v : Vault β δ) : Prop :=
  ∀ l k, get? p l = some k → v.location? k = some l

theorem Scope.Kept.of_keeps {s : Scope} {v v' : Vault β δ} (h : s.Kept v) (hkeeps : v.Keeps v') :
    s.Kept v' :=
  { h with located := fun l u k hk => hkeeps.location? (h.located l u k hk) }

theorem Pool.Kept.of_keeps {p : Pool} {v v' : Vault β δ} (h : p.Kept v) (hkeeps : v.Keeps v') :
    p.Kept v' := fun l k hk => hkeeps.location? (h l k hk)

/-- The storage of a unit is about it. -/
theorem Scope.Kept.exists_storage {s : Scope} {v : Vault β δ} (h : s.Kept v) {l : Location}
    {u : Path} {k : StorageId} (hk : get? s.storages l = some (u, k)) :
    ∃ st, v.storage? k = some st ∧ st.unit.location = l := by
  obtain ⟨unit, hunit, hl⟩ := Option.map_eq_some_iff.mp (h.located l u k hk)
  obtain ⟨st, hst, rfl⟩ := Vault.unit?_eq_some hunit
  exact ⟨st, hst, hl⟩

/-- Path variables do not matter. -/
theorem Scope.kept_bare {s : Scope} {v : Vault β δ} :
    Scope.Kept { s with substitutor := none } v ↔ s.Kept v :=
  ⟨fun h => ⟨h.storages, h.components, h.located, h.mapped⟩,
    fun h => ⟨h.storages, h.components, h.located, h.mapped⟩⟩

/-- A scope that maps a unit to a storage that is about it. -/
theorem Scope.Kept.mapUnit {s : Scope} {v : Vault β δ} (h : s.Kept v) {unit : Path}
    {k : StorageId} (hk : v.location? k = some unit.location)
    (hnew : get? s.storages unit.location = none) :
    Scope.Kept { s with storages := Bindings.insert s.storages unit.location (unit, k) } v := by
  refine ⟨h.storages.insert _ _, h.components, fun l u j hj => ?_, fun n e he => ?_⟩
  · rw [Bindings.get?_insert] at hj
    split at hj
    · rename_i hl
      obtain ⟨_, hjk⟩ := Prod.mk.inj (Option.some.inj hj)
      rw [← hjk, hl]
      exact hk
    · exact h.located l u j hj
  · obtain ⟨l, u, hl⟩ := h.mapped n e he
    refine ⟨l, u, ?_⟩
    have hne : l ≠ unit.location := by
      rintro rfl
      rw [hnew] at hl
      cases hl
    rw [Bindings.get?_insert, if_neg hne]
    exact hl

/-- A scope with one component more, in one of its storages. -/
theorem Scope.Kept.addEntry {s : Scope} {v : Vault β δ} (h : s.Kept v) {name : String}
    {entry : Entry} (hentry : ∃ l u, get? s.storages l = some (u, entry.storage)) :
    Scope.Kept { s with components := Bindings.insert s.components name entry } v := by
  refine ⟨h.storages, h.components.insert _ _, h.located, fun n e he => ?_⟩
  rw [Bindings.get?_insert] at he
  split at he
  · rw [← Option.some.inj he]
    exact hentry
  · exact h.mapped n e he

namespace Workspace

/-! ## 2. Workspaces in order -/

/-- All scopes and pools are in order, and every session is in one phase. -/
structure Kept (w : Workspace β δ) : Prop where
  scopes : ∀ s ∈ w.scopes, s.Kept w.vault
  pools : ∀ p ∈ w.pools, p.Kept w.vault
  sessions : ∀ e ∈ w.sessions, ∃ p, e.2.Uniform p

namespace Kept

variable {w w' : Workspace β δ}

theorem scope (h : w.Kept) {id : ScopeId} {s : Scope} (hs : w.scope? id = some s) :
    s.Kept w.vault := h.scopes s (List.mem_of_getElem? hs)

theorem pool (h : w.Kept) (p : PoolId) : (w.pool p).Kept w.vault := by
  rw [Workspace.pool, List.getD_eq_getElem?_getD]
  cases hp : w.pools[p]? with
  | none =>
    intro l k hk
    cases hk
  | some pool => exact h.pools pool (List.mem_of_getElem? hp)

/-- Path variables do not matter. -/
theorem of_outline (h : w.Kept) (houtline : w'.outline = w.outline)
    (hkeeps : w.vault.Keeps w'.vault) : w'.Kept := by
  have hpools : w'.outline.pools = w.outline.pools := congrArg Workspace.pools houtline
  have hsessions : w'.outline.sessions = w.outline.sessions :=
    congrArg Workspace.sessions houtline
  refine ⟨fun s hs => ?_, fun p hp => ?_, fun e he => ?_⟩
  · obtain ⟨t, ht, hts⟩ := exists_scope_of_outline houtline hs
    have hkept := Scope.kept_bare.mpr ((h.scopes t ht).of_keeps hkeeps)
    rw [hts] at hkept
    exact Scope.kept_bare.mp hkept
  · have hp' : p ∈ w.outline.pools := hpools ▸ hp
    exact (h.pools p hp').of_keeps hkeeps
  · have he' : e ∈ w.outline.sessions := hsessions ▸ he
    exact h.sessions e he'

/-- A vault that keeps the units. -/
theorem withVault (h : w.Kept) {v : Vault β δ} (hkeeps : w.vault.Keeps v) :
    Kept { w with vault := v } :=
  ⟨fun s hs => (h.scopes s hs).of_keeps hkeeps, fun p hp => (h.pools p hp).of_keeps hkeeps,
    h.sessions⟩

/-- One scope changes, and stays in order. -/
theorem modifyScope (h : w.Kept) {id : ScopeId} {f : Scope → Scope}
    (hf : ∀ s, w.scope? id = some s → s.Kept w.vault → (f s).Kept w.vault) :
    (w.modifyScope id f).Kept := by
  refine ⟨fun s hs => ?_, h.pools, h.sessions⟩
  obtain ⟨k, hk⟩ := List.mem_iff_getElem?.mp hs
  have hk' : (w.modifyScope id f).scope? k = some s := hk
  rw [scope?_modifyScope] at hk'
  split at hk'
  · rename_i hid
    obtain ⟨t, ht, rfl⟩ := Option.map_eq_some_iff.mp hk'
    rw [hid] at ht
    exact hf t ht (h.scope ht)
  · exact h.scope hk'

/-- A scope that maps a unit. -/
theorem mapUnit (h : w.Kept) {id : ScopeId} {s : Scope} {unit : Path} {k : StorageId}
    (hs : w.scope? id = some s) (hnew : get? s.storages unit.location = none)
    (hk : w.vault.location? k = some unit.location) : (w.mapUnit id unit k).Kept := by
  refine h.modifyScope fun t ht hkept => hkept.mapUnit hk ?_
  rw [← Option.some.inj (hs.symm.trans ht)]
  exact hnew

/-- A storage that is loaded for a unit. -/
theorem addStorage (h : w.Kept) (p : PoolId) (s : Storage δ) : (w.addStorage p s).Kept := by
  have hkeeps := w.vault.keeps_addStorage s
  refine ⟨fun t ht => (h.scopes t ht).of_keeps hkeeps, fun q hq => ?_, h.sessions⟩
  rcases List.mem_or_eq_of_mem_set hq with hq | rfl
  · exact (h.pools q hq).of_keeps hkeeps
  · intro l k hk
    rw [Bindings.get?_insert] at hk
    split at hk
    · rename_i hl
      rw [← Option.some.inj hk, hl]
      refine Vault.location?_of_unit? ?_
      exact (w.vault.unit?_addStorage s _).trans (if_pos rfl)
    · exact hkeeps.location? (h.pool p l k hk)

end Kept

/-- Scopes that differ in path variables only map the same units. -/
theorem storages_of_outline {w w' : Workspace β δ} (h : w'.outline = w.outline) (id : ScopeId) :
    (w'.scope? id).map Scope.storages = (w.scope? id).map Scope.storages := by
  have hscope : (w'.outline.scope? id).map Scope.storages
      = (w.outline.scope? id).map Scope.storages := by rw [h]
  rw [scope?_outline, scope?_outline, Option.map_map, Option.map_map] at hscope
  exact hscope

/-- A session captures the same units as before when only path variables,
components and what is remembered have changed. -/
theorem layout_of_outline {w w' : Workspace β δ} (h : w'.outline = w.outline)
    (hunit : w'.vault.unit? = w.vault.unit?) (id : ScopeId) :
    (w'.openScope id).layout = (w.openScope id).layout := by
  have hstorages := storages_of_outline h id
  have hcomponents := components_of_outline h id
  have helim : ∀ k (u : Path), (w'.vault.storage? k).elim u Storage.unit
      = (w.vault.storage? k).elim u Storage.unit := by
    intro k u
    have hof : ∀ o : Option (Storage δ), o.elim u Storage.unit
        = (o.map Storage.unit).getD u := by
      intro o
      cases o <;> rfl
    have hsame : (w'.vault.storage? k).map Storage.unit = (w.vault.storage? k).map Storage.unit :=
      congrFun hunit k
    rw [hof, hof, hsame]
  unfold openScope
  cases hs : w.scope? id with
  | none =>
    rw [hs, Option.map_none, Option.map_eq_none_iff] at hstorages
    rw [hstorages]
  | some s =>
    rw [hs, Option.map_some] at hstorages hcomponents
    obtain ⟨s', hs', hstorages'⟩ := Option.map_eq_some_iff.mp hstorages
    rw [hs', Option.map_some] at hcomponents
    have hcomponents' : s'.components = s.components := Option.some.inj hcomponents
    simp only [hs', layout, hstorages', hcomponents', helim]

/-! ## 3. Registering -/

section Registering

variable [Backing β] [DecidableEq δ] [Digest δ] {w w' : Workspace β δ}

/-- **The storage for a unit is about that unit**, and the scope maps the unit to
it from then on. -/
theorem Kept.storageFor (h : w.Kept) {id : ScopeId} {s : Scope} {unit : Path}
    {template : String} {k : StorageId} (hs : w.scope? id = some s)
    (hfound : w.storageFor id s unit template = .ok (k, w')) :
    w'.Kept ∧ w.vault.Keeps w'.vault ∧
      ∃ t u, w'.scope? id = some t ∧ get? t.storages unit.location = some (u, k) := by
  -- Whatever the storage is, the scope maps the unit to it in the end.
  have hmapped : ∀ w₁ : Workspace β δ, w₁.scope? id = some s →
      ∃ t u, (w₁.mapUnit id unit k).scope? id = some t ∧
        get? t.storages unit.location = some (u, k) := by
    intro w₁ hs₁
    refine ⟨{ s with storages := Bindings.insert s.storages unit.location (unit, k) }, unit, ?_, ?_⟩
    · rw [Workspace.mapUnit, scope?_modifyScope, if_pos rfl, hs₁, Option.map_some]
    · exact (Bindings.get?_insert s.storages unit.location (unit, k) _).trans (if_pos rfl)
  rcases storageFor_cases hfound with
    ⟨u, hu, rfl⟩ | ⟨hnew, ⟨hpool, _, rfl⟩ | ⟨snapshot, _, _, rfl, rfl⟩⟩
  · exact ⟨h, Vault.Keeps.refl _, s, u, hs, hu⟩
  · exact ⟨h.mapUnit hs hnew (h.pool s.pool _ k hpool), Vault.Keeps.refl _, hmapped w hs⟩
  · refine ⟨(h.addStorage s.pool _).mapUnit hs hnew ?_, w.vault.keeps_addStorage _,
      hmapped (w.addStorage s.pool _) hs⟩
    exact Vault.location?_of_unit? ((w.vault.unit?_addStorage _ _).trans (if_pos rfl))

/-- **Registering a component** keeps everything in order. -/
theorem Kept.addComponent (h : w.Kept) (id : ScopeId) (component : ComponentId)
    (name template : String) :
    (w.addComponent id component name template).2.Kept ∧
      w.vault.Keeps (w.addComponent id component name template).2.vault := by
  rcases w.addComponent_cases id component name template with
    ⟨houtline, hvault⟩ | ⟨w₁, s, unit, k, w₂, houtline, hvault, hs, hfound, hout⟩
  · have hkeeps : w.vault.Keeps (w.addComponent id component name template).2.vault := by
      rw [hvault]
      exact Vault.Keeps.refl _
    exact ⟨h.of_outline houtline hkeeps, hkeeps⟩
  · have hkept₁ : w₁.Kept := h.of_outline houtline (by rw [hvault]; exact Vault.Keeps.refl _)
    obtain ⟨hkept₂, hkeeps₂, t, u, ht, hu⟩ := hkept₁.storageFor hs hfound
    have heffect := loadComponent_effect w₂ id name ⟨component, k⟩
    have hkeeps₃ := Vault.Keeps.of_eq heffect.vault.unit
    have hkept₃ := hkept₂.of_outline heffect.outline hkeeps₃
    rw [hout]
    rw [hvault] at hkeeps₂
    refine ⟨hkept₃.modifyScope fun t' ht' hkept' => hkept'.addEntry ⟨unit.location, u, ?_⟩,
      hkeeps₂.trans hkeeps₃⟩
    -- Loading the component has not touched what the scope maps.
    have hstorages := storages_of_outline heffect.outline id
    rw [ht, ht', Option.map_some, Option.map_some] at hstorages
    rw [Option.some.inj hstorages]
    exact hu

end Registering

/-! ## 4. All actions -/

/-- What holds of all sessions holds of them with one session more. -/
theorem forall_mem_insert_sessions {P : SessionTree (ScopeSession δ) → Prop}
    {sessions : Bindings String (SessionTree (ScopeSession δ))}
    (h : ∀ e ∈ sessions, P e.2) (handle : String) {t : SessionTree (ScopeSession δ)} (ht : P t) :
    ∀ e ∈ Bindings.insert sessions handle t, P e.2 := by
  intro e he
  rcases Bindings.mem_insert he with rfl | he
  · exact ht
  · exact h e he

/-- A call on a session keeps everything in order if it keeps the session in one
phase and the storages about their units. -/
theorem Kept.onSession {w : Workspace β δ} (h : w.Kept) (handle : String)
    {call : SessionTree (ScopeSession δ) → Vault β δ → SessionTree (ScopeSession δ) × Vault β δ}
    (hcall : ∀ t p, t.Uniform p →
      (∃ q, (call t w.vault).1.Uniform q) ∧ (call t w.vault).2.unit? = w.vault.unit?) :
    (w.onSession handle call).Kept ∧ w.vault.Keeps (w.onSession handle call).vault := by
  unfold Workspace.onSession
  split
  · exact ⟨h, Vault.Keeps.refl _⟩
  · rename_i t ht
    obtain ⟨p, hp⟩ := h.sessions _ (Bindings.mem_of_get? ht)
    obtain ⟨huniform, hunit⟩ := hcall t p hp
    have hkept := h.withVault (Vault.Keeps.of_eq hunit)
    refine ⟨⟨hkept.scopes, hkept.pools, ?_⟩, Vault.Keeps.of_eq hunit⟩
    exact forall_mem_insert_sessions (P := fun t => ∃ p, t.Uniform p) h.sessions handle huniform

theorem kept_start (backing : β) : (start backing : Workspace β δ).Kept := by
  refine ⟨fun s hs => absurd hs List.not_mem_nil, fun p hp => ?_,
    fun e he => absurd he List.not_mem_nil⟩
  rw [List.mem_singleton.mp hp]
  intro l k hk
  cases hk

section Acting

variable [Backing β] [DecidableEq δ] [Digest δ] {w w' : Workspace β δ}

theorem save_keeps (w : Workspace β δ) (id : ScopeId) :
    (w.save id).2 = { w with vault := (w.save id).2.vault } ∧
      (w.save id).2.vault.unit? = w.vault.unit? := by
  rcases w.save_cases id with ⟨hout, _⟩ | ⟨hout, _⟩
  · rw [hout]
    exact ⟨rfl, Turn.unit?_perform _ _⟩
  · rw [hout]
    exact ⟨rfl, rfl⟩

/-- A staging, finishing or resetting session stays in one phase. -/
theorem uniform_calls {p : Phase} {t : SessionTree (ScopeSession δ)} (h : t.Uniform p)
    (v : Vault β δ) :
    (∃ q, (t.save v).session.Uniform q) ∧ (∃ q, (t.finish v).session.Uniform q) ∧
      (∃ q, (t.reset v).session.Uniform q) ∧ (t.save v).world = v ∧
      (t.finish v).world.unit? = v.unit? ∧ (t.reset v).world = v := by
  cases hp : p.isTerminal with
  | true =>
    obtain ⟨hsave, hfinish, hreset⟩ := SessionTree.calls_of_ended hp h v
    rw [hsave, hfinish, hreset]
    exact ⟨⟨p, h⟩, ⟨p, h⟩, ⟨p, h⟩, rfl, rfl, rfl⟩
  | false =>
    obtain ⟨hworld, huniform, _⟩ := SessionTree.save_spec hp h v
    obtain ⟨huniform', _⟩ := SessionTree.finish_session hp h v
    obtain ⟨hworld'', huniform'', _⟩ := SessionTree.reset_spec hp h v
    obtain ⟨hfinished, _⟩ := SessionTree.finish_spec t (h.ready hp) v
    refine ⟨⟨_, huniform⟩, ⟨_, huniform'⟩, ⟨_, huniform''⟩, hworld, ?_, hworld''⟩
    rw [hfinished]
    exact Turn.unit?_perform _ _

/-- Whatever a session is called for, storages stay about their units. -/
theorem unit?_of_calls {p : Phase} {t : SessionTree (ScopeSession δ)} (h : t.Uniform p)
    (v : Vault β δ) :
    (t.save v).world.unit? = v.unit? ∧ (t.finish v).world.unit? = v.unit? ∧
      (t.reset v).world.unit? = v.unit? := by
  obtain ⟨_, _, _, hsave, hfinish, hreset⟩ := uniform_calls h v
  exact ⟨congrArg _ hsave, hfinish, congrArg _ hreset⟩

omit [Backing β] [DecidableEq δ] [Digest δ] in
/-- Settling takes scopes out of use and leaves them as they are. -/
theorem Kept.settle (h : w.Kept) (hvault : w.vault = w'.vault) :
    w.settle.Kept ∧ w'.vault.Keeps w.settle.vault := by
  refine ⟨settle_preserves Kept (fun w h => ⟨h.scopes, h.pools, h.sessions⟩) h, ?_⟩
  rw [settle_vault, hvault]
  exact Vault.Keeps.refl _

omit [Backing β] [DecidableEq δ] [Digest δ] in
/-- A pool that is new knows nothing. -/
theorem Kept.addPool (h : w.Kept) : w.addPool.2.Kept := by
  refine ⟨h.scopes, fun p hp => ?_, h.sessions⟩
  rcases List.mem_append.mp hp with hp | hp
  · exact h.pools p hp
  · rw [List.mem_singleton.mp hp]
    intro l k hk
    cases hk

omit [Backing β] [DecidableEq δ] [Digest δ] in
/-- A scope that is new has nothing. -/
theorem Kept.addScope (h : w.Kept) (name : String) (substitutor : Option Substitutor)
    (pool : PoolId) : (w.addScope { name, substitutor, pool }).2.Kept := by
  refine ⟨fun s hs => ?_, h.pools, h.sessions⟩
  rcases List.mem_append.mp hs with hs | hs
  · exact h.scopes s hs
  · rw [List.mem_singleton.mp hs]
    refine ⟨Bindings.sorted_nil, Bindings.sorted_nil, ?_, ?_⟩
    · intro l u k hk
      cases hk
    · intro n e he
      cases he

omit [Backing β] [DecidableEq δ] [Digest δ] in
/-- A registry is none of the things that are kept in order. -/
theorem Kept.attach (h : w.Kept) (scope : ScopeId) :
    (w.attach scope).2.Kept ∧ w.vault.Keeps (w.attach scope).2.vault := by
  have hmodified : ({ w with
      registries := w.registries ++ [[]]
      heldRegistries := w.registries.length :: w.heldRegistries } : Workspace β δ).Kept :=
    ⟨h.scopes, h.pools, h.sessions⟩
  refine (hmodified.modifyScope fun s _ hs => ?_).settle rfl
  exact ⟨hs.storages, hs.components, hs.located, hs.mapped⟩

/-- **Every action keeps everything in order**, and every number about its
unit. -/
theorem Kept.act (h : w.Kept) (a : Action β) :
    (w.act a).Kept ∧ w.vault.Keeps (w.act a).vault := by
  cases a with
  | addPool => exact ⟨h.addPool, Vault.Keeps.refl _⟩
  | addScope name substitutor pool => exact ⟨h.addScope name substitutor pool, Vault.Keeps.refl _⟩
  | addComponent component =>
    have hkeeps : w.vault.Keeps (w.vault.addComponent component).2 := Vault.Keeps.of_eq rfl
    exact ⟨h.withVault hkeeps, hkeeps⟩
  | attach scope => exact h.attach scope
  | list registry scope => exact ⟨⟨h.scopes, h.pools, h.sessions⟩, Vault.Keeps.refl _⟩
  | unlist registry scope => exact Kept.settle ⟨h.scopes, h.pools, h.sessions⟩ rfl
  | release scope => exact Kept.settle ⟨h.scopes, h.pools, h.sessions⟩ rfl
  | releaseRegistry registry => exact Kept.settle ⟨h.scopes, h.pools, h.sessions⟩ rfl
  | register scope component name template => exact h.addComponent scope component name template
  | edit component change =>
    have hkeeps : w.vault.Keeps (w.vault.modifyComponent component change) := Vault.Keeps.of_eq rfl
    exact ⟨h.withVault hkeeps, hkeeps⟩
  | expand scope text forget =>
    obtain ⟨houtline, hvault⟩ := expandIn_effect text forget (w.withSubstitutors scope) w
    have hkeeps : w.vault.Keeps (w.expandEach scope text forget).2.vault := by
      rw [expandEach, hvault]
      exact Vault.Keeps.refl _
    exact ⟨h.of_outline houtline hkeeps, hkeeps⟩
  | reinit scope names reload =>
    have heffect := reinit_effect w scope names reload
    have hkeeps := Vault.Keeps.of_eq heffect.vault.unit
    exact ⟨h.of_outline heffect.outline hkeeps, hkeeps⟩
  | save scope =>
    obtain ⟨hout, hunit⟩ := save_keeps w scope
    have hkeeps := Vault.Keeps.of_eq hunit
    refine ⟨?_, hkeeps⟩
    rw [Workspace.act, hout]
    exact h.withVault hkeeps
  | openSession handle scope =>
    refine ⟨⟨h.scopes, h.pools, ?_⟩, Vault.Keeps.refl _⟩
    exact forall_mem_insert_sessions (P := fun t => ∃ p, t.Uniform p) h.sessions handle
      ⟨.open, (openTree_spec w (w.tree scope)).1⟩
  | saveSession handle =>
    rw [Workspace.act]
    exact h.onSession handle fun t p hp =>
      ⟨(uniform_calls hp w.vault).1, (unit?_of_calls hp w.vault).1⟩
  | finishSession handle =>
    rw [Workspace.act]
    exact h.onSession handle fun t p hp =>
      ⟨(uniform_calls hp w.vault).2.1, (unit?_of_calls hp w.vault).2.1⟩
  | resetSession handle =>
    rw [Workspace.act]
    exact h.onSession handle fun t p hp =>
      ⟨(uniform_calls hp w.vault).2.2.1, (unit?_of_calls hp w.vault).2.2⟩
  | dropSession handle =>
    refine ⟨⟨h.scopes, h.pools, fun e he => ?_⟩, Vault.Keeps.refl _⟩
    exact h.sessions e (List.mem_filter.mp he).1
  | disturb change =>
    have hkeeps : w.vault.Keeps { w.vault with backing := change w.vault.backing } :=
      Vault.Keeps.of_eq rfl
    exact ⟨h.withVault hkeeps, hkeeps⟩

/-- **Every workspace that actions lead to is in order.** -/
theorem Reachable.kept {allowed : Action β → Prop} (h : w.Reachable allowed) : w.Kept := by
  obtain ⟨backing, hsteps⟩ := h
  exact hsteps.preserves Kept (fun _ a hkept _ _ => (hkept.act a).1) (kept_start backing)

/-- **Storages stay about their units** whatever happens. -/
theorem Steps.keeps {allowed : Action β → Prop} (h : w.Kept) (hsteps : Steps allowed w w') :
    w.vault.Keeps w'.vault :=
  (hsteps.preserves (fun w' => w'.Kept ∧ w.vault.Keeps w'.vault)
    (fun _ a hkept _ _ => ⟨(hkept.1.act a).1, hkept.2.trans (hkept.1.act a).2⟩)
    ⟨h, Vault.Keeps.refl _⟩).2

end Acting

end Workspace

end ScopedState
