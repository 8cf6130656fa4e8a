/-
`Proofs/Workspace/Pooled.lean` -- scopes that share one pool.

A storage in use is the one that the pool has under its location. Another one is
only loaded for a location when the one before is not in use any more, and what
is out of use stays so. So no two storages in use are about one location, whoever
edits the store and whatever the store refuses.

Most actions put nothing into use that was not. A scope that is new has no units
yet, and a scope that goes out of use takes its units along; a session refers to
units of scopes in use when it is opened, and stages writes for these alone.
Registering a component is the action that puts a storage into use.
-/
import ScopedState.Proofs.Workspace.Closed
set_option autoImplicit false

namespace ScopedState

open Bindings (Sorted get?)

variable {β δ : Type}

namespace Workspace

open SessionTree (parts)

/-! ## 1. What comes into use -/

section Using

variable {w : Workspace β δ} {k : StorageId}

/-- Mapping a unit puts nothing into use but its storage. -/
theorem inUse_mapUnit {id : ScopeId} {unit : Path} {j : StorageId}
    (hj : (w.mapUnit id unit k).inUse j = true) : w.inUse j = true ∨ j = k := by
  rw [inUse_iff] at hj
  rcases hj with ⟨i, hi, s, hs, l, u, hmem⟩ | hsession
  · rw [mapUnit, scope?_modifyScope] at hs
    split at hs
    · obtain ⟨t, ht, rfl⟩ := Option.map_eq_some_iff.mp hs
      rcases Bindings.mem_insert hmem with heq | hmem
      · exact Or.inr (Prod.mk.inj (Prod.mk.inj heq).2).2
      · exact Or.inl ((inUse_iff w j).mpr (Or.inl ⟨i, hi, t, ht, l, u, hmem⟩))
    · exact Or.inl ((inUse_iff w j).mpr (Or.inl ⟨i, hi, s, hs, l, u, hmem⟩))
  · exact Or.inl ((inUse_iff w j).mpr (Or.inr hsession))

/-- A scope that changes puts nothing into use if it keeps its storages. -/
theorem inUse_modifyScope (id : ScopeId) {f : Scope → Scope}
    (hstorages : ∀ s, (f s).storages = s.storages)
    (hk : (w.modifyScope id f).inUse k = true) : w.inUse k = true := by
  rw [inUse_iff] at hk ⊢
  refine hk.imp_left ?_
  rintro ⟨j, hj, s, hs, huses⟩
  rw [scope?_modifyScope] at hs
  split at hs
  · obtain ⟨t, ht, rfl⟩ := Option.map_eq_some_iff.mp hs
    unfold Scope.Uses at huses
    rw [hstorages] at huses
    exact ⟨j, hj, t, ht, huses⟩
  · exact ⟨j, hj, s, hs, huses⟩

/-- A scope that goes out of use puts nothing into use. -/
theorem inUse_sweep (hk : w.sweep.inUse k = true) : w.inUse k = true := by
  rw [inUse_iff] at hk ⊢
  refine hk.imp_left ?_
  rintro ⟨id, hid, s, hs, huses⟩
  exact ⟨id, (List.mem_filter.mp hid).1, s, hs, huses⟩

/-- A new scope uses nothing. -/
theorem inUse_addScope (hclosed : w.Closed) {s : Scope} (hs : s.storages = [])
    (hk : (w.addScope s).2.inUse k = true) : w.inUse k = true := by
  rw [inUse_iff] at hk ⊢
  refine hk.imp_left ?_
  rintro ⟨id, hid, t, ht, huses⟩
  have ht' : (w.scopes ++ [s])[id]? = some t := ht
  rcases List.mem_cons.mp hid with rfl | hid
  · rw [List.getElem?_concat_length] at ht'
    obtain ⟨l, u, hmem⟩ := huses
    rw [← Option.some.inj ht', hs] at hmem
    cases hmem
  · rw [List.getElem?_append_left (hclosed.bound id hid)] at ht'
    exact ⟨id, hid, t, ht', huses⟩

/-- A session puts nothing into use but what it refers to. -/
theorem inUse_withSession {v : Vault β δ} {handle : String} {t : SessionTree (ScopeSession δ)}
    (ht : ∀ s ∈ t.parts, Refers s k → w.inUse k = true)
    (hk : Workspace.inUse
      { w with vault := v, sessions := Bindings.insert w.sessions handle t } k = true) :
    w.inUse k = true := by
  rcases (inUse_iff _ k).mp hk with hscope | ⟨e, he, s, hs, hrefers⟩
  · exact (inUse_iff w k).mpr (Or.inl hscope)
  · rcases Bindings.mem_insert he with rfl | he
    · exact ht s hs hrefers
    · exact (inUse_iff w k).mpr (Or.inr ⟨e, he, s, hs, hrefers⟩)

/-- A session that is dropped puts nothing into use. -/
theorem inUse_dropSession {handle : String}
    (hk : Workspace.inUse { w with sessions := Bindings.erase w.sessions handle } k = true) :
    w.inUse k = true := by
  rw [inUse_iff] at hk ⊢
  refine hk.imp_right ?_
  rintro ⟨e, he, hrefers⟩
  exact ⟨e, (List.mem_filter.mp he).1, hrefers⟩

variable [Backing β] [DecidableEq δ] [Digest δ]

/-- **The calls on a session** refer to nothing more: what is staged is for units
of the session. -/
theorem refers_of_calls {t : SessionTree (ScopeSession δ)} {p : Phase} (hp : t.Uniform p)
    (v : Vault β δ) :
    (∀ s ∈ (t.save v).session.parts, Refers s k → ∃ part ∈ t.parts, Refers part k) ∧
      (∀ s ∈ (t.finish v).session.parts, Refers s k → ∃ part ∈ t.parts, Refers part k) ∧
      ∀ s ∈ (t.reset v).session.parts, Refers s k → ∃ part ∈ t.parts, Refers part k := by
  refine SessionTree.forall_parts_of_calls
    (P := fun s => Refers s k → ∃ part ∈ t.parts, Refers part k) hp v (fun s hs hk => ⟨s, hs, hk⟩)
    (fun s hs hk => hs ?_) fun _ s hs hk => hs (refers_of_endedIn hk)
  rcases hk with hslot | ⟨write, hwrite, rfl⟩
  · exact Or.inl hslot
  · exact Or.inl (ScopeSession.storage_of_due hwrite)

end Using

/-! ## 2. One pool -/

/-- One pool has all storages in use. -/
structure Pooled (w : Workspace β δ) : Prop where
  pool : 0 < w.pools.length
  onePool : ∀ s ∈ w.scopes, s.pool = 0
  pooled : ∀ k l, w.inUse k = true → w.vault.location? k = some l →
    get? (w.pool 0) l = some k

/-- Mapping a unit leaves every scope in its pool. -/
theorem onePool_mapUnit {w : Workspace β δ} (h : ∀ s ∈ w.scopes, s.pool = 0) (id : ScopeId)
    (unit : Path) (k : StorageId) : ∀ s ∈ (w.mapUnit id unit k).scopes, s.pool = 0 := by
  rw [mapUnit]
  exact forall_mem_modifyScope h id fun s hs => hs

namespace Pooled

variable {w w' : Workspace β δ}

/-- **One location, one storage in use.** -/
theorem unique (h : w.Pooled) {k k' : StorageId} {l : Location} (hk : w.inUse k = true)
    (hk' : w.inUse k' = true) (hl : w.vault.location? k = some l)
    (hl' : w.vault.location? k' = some l) : k = k' :=
  Option.some.inj ((h.pooled k l hk hl).symm.trans (h.pooled k' l hk' hl'))

/-- Nothing is put into use. -/
theorem of_fewer (h : w.Pooled) (hpools : 0 < w'.pools.length) (hpool : w'.pool 0 = w.pool 0)
    (hscopes : ∀ s ∈ w'.scopes, s.pool = 0) (hunit : w'.vault.unit? = w.vault.unit?)
    (huse : ∀ k, w'.inUse k = true → w.inUse k = true) : w'.Pooled := by
  refine ⟨hpools, hscopes, fun k l hk hl => ?_⟩
  unfold Vault.location? at hl
  rw [hunit] at hl
  rw [hpool]
  exact h.pooled k l (huse k hk) hl

/-- Path variables do not matter, nor does what is remembered. -/
theorem of_outline (h : w.Pooled) (houtline : w'.outline = w.outline)
    (hunit : w'.vault.unit? = w.vault.unit?) : w'.Pooled := by
  have hpools : w'.outline.pools = w.outline.pools := congrArg Workspace.pools houtline
  have hpools' : w'.pools = w.pools := hpools
  refine h.of_fewer ?_ ?_ (fun s hs => ?_) hunit fun k hk => ?_
  · rw [hpools']
    exact h.pool
  · rw [Workspace.pool, Workspace.pool, hpools']
  · obtain ⟨t, ht, hts⟩ := exists_scope_of_outline houtline hs
    have hpool : Scope.pool { t with substitutor := none }
        = Scope.pool { s with substitutor := none } := congrArg Scope.pool hts
    exact hpool.symm.trans (h.onePool t ht)
  · rw [← inUse_of_outline houtline]
    exact hk

/-- Registries do not matter, nor does what the caller holds. -/
theorem withRegistries (h : w.Pooled) (registries : List (List ScopeId)) (held : List ScopeId)
    (heldRegistries : List RegistryId) : Pooled { w with registries, held, heldRegistries } :=
  h.of_fewer h.pool rfl h.onePool rfl fun _ hk => hk

theorem dropSession (h : w.Pooled) {handle : String} :
    Pooled { w with sessions := Bindings.erase w.sessions handle } :=
  h.of_fewer h.pool rfl h.onePool rfl fun _ => inUse_dropSession

theorem sweep (h : w.Pooled) : w.sweep.Pooled :=
  h.of_fewer h.pool rfl h.onePool rfl fun _ => inUse_sweep

theorem settle (h : w.Pooled) : w.settle.Pooled :=
  settle_preserves Pooled (fun _ h => h.sweep) h

theorem modifyScope (h : w.Pooled) (id : ScopeId) {f : Scope → Scope}
    (hstorages : ∀ s, (f s).storages = s.storages) (hpool : ∀ s, (f s).pool = s.pool) :
    (w.modifyScope id f).Pooled := by
  have honePool := forall_mem_modifyScope (P := fun s => s.pool = 0) h.onePool id
    fun s hs => (hpool s).trans hs
  exact h.of_fewer h.pool rfl honePool rfl fun _ => inUse_modifyScope id hstorages

/-- A unit is mapped to a storage that was in use. -/
theorem mapUnit (h : w.Pooled) (id : ScopeId) (unit : Path) {k : StorageId}
    (hk : w.inUse k = true) : (w.mapUnit id unit k).Pooled := by
  refine h.of_fewer h.pool rfl (onePool_mapUnit h.onePool id unit k) rfl fun j hj => ?_
  rcases inUse_mapUnit hj with hj | rfl
  · exact hj
  · exact hk

/-- **A storage is loaded for a unit.** The pool had none in use for the location, so
the new one is the only one in use there. -/
theorem of_loaded (h : w.Pooled) {unit : Path} {template : String} {snapshot : Snapshot δ}
    (hfind : (w.pool 0).find? w.inUse unit = none)
    (hpools : w'.pools = (w.addStorage 0 { unit, template, snapshot }).pools)
    (honePool : ∀ s ∈ w'.scopes, s.pool = 0)
    (hvault : w'.vault.unit? = (w.addStorage 0 { unit, template, snapshot }).vault.unit?)
    (huse : ∀ k, w'.inUse k = true → w.inUse k = true ∨ k = w.vault.storages.length) :
    w'.Pooled := by
  have hunit := w.vault.unit?_addStorage { unit, template, snapshot }
  have hpool : ∀ l, get? (w'.pool 0) l
      = if l = unit.location then some w.vault.storages.length else get? (w.pool 0) l := by
    intro l
    have hset : w'.pool 0 = Bindings.insert (w.pool 0) unit.location w.vault.storages.length := by
      rw [Workspace.pool, hpools, List.getD_eq_getElem?_getD, addStorage,
        List.getElem?_set_self h.pool]
      rfl
    rw [hset, Bindings.get?_insert]
  refine ⟨?_, honePool, fun k l hk hl => ?_⟩
  · rw [hpools, addStorage, List.length_set]
    exact h.pool
  · refine (hpool l).trans ?_
    unfold Vault.location? at hl
    rw [hvault] at hl
    obtain ⟨u, hu, rfl⟩ := Option.map_eq_some_iff.mp hl
    have hu' := (hunit k).symm.trans hu
    split at hu'
    · rename_i hnew
      rw [← Option.some.inj hu', if_pos rfl, hnew]
    · rename_i hnew
      -- A storage in use is the new one or was in use before.
      have hold : w.inUse k = true := (huse k hk).resolve_right hnew
      have hpooled := h.pooled k u.location hold (Vault.location?_of_unit? hu')
      -- Else the pool would have found it for the location.
      have hother : u.location ≠ unit.location := by
        intro hl
        rw [hl] at hpooled
        rw [Pool.find?, hpooled] at hfind
        simp only [hold, if_true] at hfind
        cases hfind
      rw [if_neg hother]
      exact hpooled

/-- A unit is mapped to a storage that was loaded for it. -/
theorem mapNew (h : w.Pooled) (id : ScopeId) {unit : Path} {template : String}
    {snapshot : Snapshot δ} (hfind : (w.pool 0).find? w.inUse unit = none) :
    ((w.addStorage 0 { unit, template, snapshot }).mapUnit id unit
      w.vault.storages.length).Pooled :=
  h.of_loaded hfind rfl (onePool_mapUnit h.onePool id unit _) rfl fun _ hk => inUse_mapUnit hk

/-- A pool more. -/
theorem addPool (h : w.Pooled) : w.addPool.2.Pooled := by
  refine h.of_fewer ?_ ?_ h.onePool rfl fun _ hk => hk
  · show 0 < (w.pools ++ [[]]).length
    rw [List.length_append]
    exact Nat.lt_add_right _ h.pool
  · rw [Workspace.pool, Workspace.pool, List.getD_eq_getElem?_getD, List.getD_eq_getElem?_getD]
    congr 1
    exact List.getElem?_append_left h.pool

/-- A scope of the first pool more. -/
theorem addScope (h : w.Pooled) (hclosed : w.Closed) {s : Scope} (hpool : s.pool = 0)
    (hstorages : s.storages = []) : (w.addScope s).2.Pooled := by
  refine h.of_fewer h.pool rfl (fun t ht => ?_) rfl fun _ => inUse_addScope hclosed hstorages
  rcases List.mem_append.mp ht with ht | ht
  · exact h.onePool t ht
  · rw [List.mem_singleton.mp ht]
    exact hpool

section Acting

variable [Backing β] [DecidableEq δ] [Digest δ]

/-- **Registering a component** puts the storage into use that the pool has. -/
theorem addComponent (h : w.Pooled) (id : ScopeId) (component : ComponentId)
    (name template : String) : (w.addComponent id component name template).2.Pooled := by
  rcases w.addComponent_cases id component name template with
    ⟨houtline, hvault⟩ | ⟨w₁, s, unit, k, w₂, houtline, hvault, hs, hfound, hout⟩
  · exact h.of_outline houtline (by rw [hvault])
  · have hpooled₁ : w₁.Pooled := h.of_outline houtline (by rw [hvault])
    have hpool : s.pool = 0 := hpooled₁.onePool s (List.mem_of_getElem? hs)
    have hpooled₂ : w₂.Pooled := by
      rcases storageFor_cases hfound with
        ⟨_, _, rfl⟩ | ⟨_, ⟨_, huse, rfl⟩ | ⟨snapshot, hfind, _, rfl, rfl⟩⟩
      · exact hpooled₁
      · exact hpooled₁.mapUnit id unit huse
      · rw [hpool] at hfind ⊢
        exact hpooled₁.mapNew id hfind
    have heffect := loadComponent_effect w₂ id name ⟨component, k⟩
    rw [hout]
    exact (hpooled₂.of_outline heffect.outline heffect.vault.unit).modifyScope id (fun _ => rfl)
      fun _ => rfl

omit [Backing β] [DecidableEq δ] [Digest δ] in
/-- **A call on a session** that refers to nothing more. -/
theorem onSession (h : w.Pooled) (hkept : w.Kept) (handle : String)
    {call : SessionTree (ScopeSession δ) → Vault β δ → SessionTree (ScopeSession δ) × Vault β δ}
    (hcall : ∀ t p, t.Uniform p → (call t w.vault).2.unit? = w.vault.unit? ∧
      ∀ k, ∀ s ∈ (call t w.vault).1.parts, Refers s k → ∃ part ∈ t.parts, Refers part k) :
    (w.onSession handle call).Pooled := by
  unfold Workspace.onSession
  split
  · exact h
  · rename_i t ht
    have hmem := Bindings.mem_of_get? ht
    obtain ⟨p, hp⟩ := hkept.sessions _ hmem
    obtain ⟨hunit, hrefers⟩ := hcall t p hp
    refine h.of_fewer h.pool rfl h.onePool hunit fun k => inUse_withSession fun s hs hk => ?_
    obtain ⟨part, hpart, hk'⟩ := hrefers k s hs hk
    exact (inUse_iff w k).mpr (Or.inr ⟨_, hmem, part, hpart, hk'⟩)

/-- **Every action** leaves all storages in use in the pool, as long as all scopes
draw from it. -/
theorem act (h : w.Pooled) (hkept : w.Kept) (hclosed : w.Closed) {a : Action β}
    (hallowed : a.OnePool) (hpossible : w.Possible a) : (w.act a).Pooled := by
  cases a with
  | addPool => exact h.addPool
  | addScope name substitutor pool => exact h.addScope hclosed hallowed rfl
  | addComponent component => exact h.of_outline rfl rfl
  | attach scope =>
    exact Pooled.settle ((h.withRegistries _ _ _).modifyScope scope (fun _ => rfl) fun _ => rfl)
  | list registry scope => exact h.withRegistries _ _ _
  | unlist registry scope => exact Pooled.settle (h.withRegistries _ _ _)
  | release scope => exact Pooled.settle (h.withRegistries _ _ _)
  | releaseRegistry registry => exact Pooled.settle (h.withRegistries _ _ _)
  | register scope component name template => exact h.addComponent scope component name template
  | edit component change => exact h.of_outline rfl rfl
  | expand scope text forget =>
    obtain ⟨houtline, hvault⟩ := expandIn_effect text forget (w.withSubstitutors scope) w
    refine h.of_outline houtline ?_
    rw [Workspace.act, expandEach, hvault]
  | reinit scope names reload =>
    have heffect := reinit_effect w scope names reload
    exact h.of_outline heffect.outline heffect.vault.unit
  | save scope =>
    obtain ⟨hout, hunit⟩ := save_keeps w scope
    rw [Workspace.act, hout]
    exact h.of_fewer h.pool rfl h.onePool hunit fun _ hk => hk
  | openSession handle scope =>
    refine h.of_fewer h.pool rfl h.onePool rfl fun k => inUse_withSession fun s hs hk => ?_
    exact (refers_of_startSave hclosed (hpossible scope rfl) s hs).1 k hk
  | saveSession handle =>
    rw [Workspace.act]
    exact h.onSession hkept handle fun t p hp =>
      ⟨(unit?_of_calls hp w.vault).1, fun k => (refers_of_calls hp w.vault).1⟩
  | finishSession handle =>
    rw [Workspace.act]
    exact h.onSession hkept handle fun t p hp =>
      ⟨(unit?_of_calls hp w.vault).2.1, fun k => (refers_of_calls hp w.vault).2.1⟩
  | resetSession handle =>
    rw [Workspace.act]
    exact h.onSession hkept handle fun t p hp =>
      ⟨(unit?_of_calls hp w.vault).2.2, fun k => (refers_of_calls hp w.vault).2.2⟩
  | dropSession handle => exact h.dropSession
  | disturb change => exact h.of_outline rfl rfl

end Acting

end Pooled

theorem pooled_start (backing : β) : (start backing : Workspace β δ).Pooled := by
  refine ⟨Nat.one_pos, fun s hs => absurd hs List.not_mem_nil, fun k l hk => ?_⟩
  rcases (inUse_iff _ k).mp hk with ⟨id, hid, _⟩ | ⟨e, he, _⟩
  · cases hid
  · cases he

/-- **Every workspace of one pool**, whatever else has happened. -/
theorem Reachable.pooled [Backing β] [DecidableEq δ] [Digest δ] {w : Workspace β δ}
    (h : w.Reachable Action.OnePool) : w.Kept ∧ w.Closed ∧ w.Pooled := by
  obtain ⟨backing, hsteps⟩ := h
  refine hsteps.preserves (fun w => w.Kept ∧ w.Closed ∧ w.Pooled) ?_
    ⟨kept_start backing, closed_start backing, pooled_start backing⟩
  rintro w a ⟨hkept, hclosed, hpooled⟩ hallowed hpossible
  exact ⟨(hkept.act a).1, hclosed.act hpossible, hpooled.act hkept hclosed hallowed hpossible⟩

end Workspace

end ScopedState
