/-
`Proofs/Workspace/Closed.lean` -- what stays in use.

A storage is in use when a scope in use maps a unit to it or a session refers
to it, and once it is out of use it stays so. That is owed to the caller, who
only acts on scopes in use, and to the registries: the scopes below a scope in
use are in use. Whatever a registry lists that somebody still consults is
referred to, so taking the rest out of use does not touch it, in the first
round or in any other (`Closed`).
-/
import ScopedState.Proofs.Workspace.Kept
set_option autoImplicit false

namespace ScopedState

open Bindings (Sorted get?)

variable {β δ : Type}

/-! ## 1. What is in use -/

/-- Whether a scope maps some unit to a storage. -/
def Scope.Uses (s : Scope) (k : StorageId) : Prop := ∃ l u, (l, (u, k)) ∈ s.storages

theorem Scope.holds_iff (s : Scope) (k : StorageId) : s.holds k = true ↔ s.Uses k := by
  rw [holds, Bindings.values, List.any_map, List.any_eq_true]
  constructor
  · rintro ⟨⟨l, u, j⟩, hmem, hj⟩
    have hjk : j = k := of_decide_eq_true hj
    exact ⟨l, u, hjk ▸ hmem⟩
  · rintro ⟨l, u, hmem⟩
    exact ⟨(l, (u, k)), hmem, decide_eq_true rfl⟩

namespace Workspace

open SessionTree (parts partsAll)

/-- Whether a part of a session refers to a storage. -/
def Refers (s : ScopeSession δ) (k : StorageId) : Prop :=
  (∃ slot ∈ s.layout, slot.storage = k) ∨ ∃ write ∈ s.staged, write.storage = k

theorem sessionHolds_iff (s : ScopeSession δ) (k : StorageId) :
    sessionHolds k s = true ↔ Refers s k := by
  rw [sessionHolds, Bool.or_eq_true, List.any_eq_true, List.any_eq_true]
  simp only [decide_eq_true_eq]
  rfl

mutual

theorem treeHolds_iff (k : StorageId) : ∀ t : SessionTree (ScopeSession δ),
    treeHolds k t = true ↔ ∃ s ∈ t.parts, Refers s k
  | .single s => by
    rw [treeHolds, sessionHolds_iff, parts]
    simp only [List.mem_singleton, exists_eq_left]
  | .group phase own members => by
    rw [treeHolds, Bool.or_eq_true, treeHolds_iff k own, anyHolds_iff k members, parts, or_comm]
    simp only [List.mem_append, or_and_right, exists_or]

theorem anyHolds_iff (k : StorageId) : ∀ ts : List (SessionTree (ScopeSession δ)),
    anyHolds k ts = true ↔ ∃ s ∈ partsAll ts, Refers s k
  | [] => by
    rw [anyHolds, partsAll]
    simp
  | t :: ts => by
    rw [anyHolds, Bool.or_eq_true, treeHolds_iff k t, anyHolds_iff k ts, partsAll]
    simp only [List.mem_append, or_and_right, exists_or]

end

theorem mem_partsAll {ts : List (SessionTree (ScopeSession δ))} {s : ScopeSession δ} :
    s ∈ partsAll ts ↔ ∃ t ∈ ts, s ∈ t.parts := by
  induction ts with
  | nil =>
    rw [partsAll]
    simp
  | cons t ts ih =>
    rw [partsAll, List.mem_append, ih]
    simp only [List.mem_cons, or_and_right, exists_or, exists_eq_left]

/-- **A storage is in use** when a scope in use maps a unit to it, or a session
refers to it. -/
theorem inUse_iff (w : Workspace β δ) (k : StorageId) :
    w.inUse k = true ↔ (∃ id ∈ w.live, ∃ s, w.scope? id = some s ∧ s.Uses k) ∨
      ∃ e ∈ w.sessions, ∃ s ∈ e.2.parts, Refers s k := by
  rw [inUse, Bool.or_eq_true, List.any_eq_true, anyHolds_iff]
  refine or_congr (exists_congr fun id => and_congr_right fun _ => ?_) ?_
  · rw [Option.any_eq_true]
    exact exists_congr fun s => and_congr_right fun _ => s.holds_iff k
  · simp only [mem_partsAll, Bindings.values, List.mem_map]
    constructor
    · rintro ⟨s, ⟨t, ⟨e, he, rfl⟩, hs⟩, hrefers⟩
      exact ⟨e, he, s, hs, hrefers⟩
    · rintro ⟨e, he, s, hs, hrefers⟩
      exact ⟨s, ⟨e.2, ⟨e, he, rfl⟩, hs⟩, hrefers⟩

/-- **A registry is consulted** when the caller holds it or a scope in use has
it. -/
theorem isConsulted_iff (w : Workspace β δ) (r : RegistryId) :
    w.isConsulted r = true ↔ r ∈ w.heldRegistries ∨
      ∃ id ∈ w.live, ∃ s, w.scope? id = some s ∧ s.registry = some r := by
  rw [isConsulted, Bool.or_eq_true, List.contains_iff_mem, List.any_eq_true]
  refine or_congr_right (exists_congr fun id => and_congr_right fun _ => ?_)
  rw [Option.any_eq_true]
  simp only [decide_eq_true_eq]

/-! ## 2. Staying in use -/

/-- The scopes in use are there, and so are those that a consulted registry
lists. -/
structure Closed (w : Workspace β δ) : Prop where
  bound : ∀ id ∈ w.live, id < w.scopes.length
  listed : ∀ r, w.isConsulted r = true → ∀ id ∈ w.listed r, id ∈ w.live

/-- The scopes below a scope in use are in use. -/
theorem Closed.children {w : Workspace β δ} (h : w.Closed) {id : ScopeId} (hid : id ∈ w.live) :
    ∀ child ∈ w.children id, child ∈ w.live := by
  intro child hchild
  unfold Workspace.children at hchild
  cases hs : w.scope? id with
  | none =>
    rw [hs] at hchild
    cases hchild
  | some s =>
    rw [hs, Option.bind_some] at hchild
    cases hr : s.registry with
    | none =>
      rw [hr] at hchild
      cases hchild
    | some r =>
      rw [hr] at hchild
      exact h.listed r ((isConsulted_iff w r).mpr (Or.inr ⟨id, hid, s, hs, hr⟩)) child hchild

/-- **The tree below a scope in use** is in use. -/
theorem Closed.tree {w : Workspace β δ} (h : w.Closed) {id : ScopeId} (hid : id ∈ w.live) :
    ∀ k ∈ (w.tree id).scopes, k ∈ w.live := by
  -- A tree is cut off at a depth, and the induction is on that.
  suffices hwithin : ∀ fuel id, id ∈ w.live → ∀ k ∈ (w.treeWithin fuel id).scopes, k ∈ w.live from
    hwithin w.scopes.length id hid
  intro fuel
  induction fuel with
  | zero =>
    intro id hid k hk
    rw [treeWithin, ScopeTree.scopes, ScopeTree.scopesOfAll] at hk
    rw [List.mem_singleton.mp hk]
    exact hid
  | succ fuel ih =>
    intro id hid k hk
    rw [treeWithin, ScopeTree.scopes] at hk
    rcases List.mem_cons.mp hk with rfl | hk
    · exact hid
    · obtain ⟨t, ht, hkt⟩ := ScopeTree.mem_scopesOfAll.mp hk
      obtain ⟨child, hchild, rfl⟩ := List.mem_map.mp ht
      exact ih child (h.children hid child hchild) k hkt

/-- Nothing more is listed by what is consulted, and nothing less is in use. -/
theorem Closed.of_fewer {w w' : Workspace β δ} (h : w.Closed) (hlive : w'.live = w.live)
    (hscopes : w.scopes.length ≤ w'.scopes.length)
    (hlisted : ∀ r, w'.isConsulted r = true → ∀ id ∈ w'.listed r,
      id ∈ w.live ∨ (w.isConsulted r = true ∧ id ∈ w.listed r)) : w'.Closed := by
  refine ⟨fun id hid => ?_, fun r hr id hid => ?_⟩
  · rw [hlive] at hid
    exact Nat.lt_of_lt_of_le (h.bound id hid) hscopes
  · rw [hlive]
    rcases hlisted r hr id hid with hin | ⟨hr', hid'⟩
    · exact hin
    · exact h.listed r hr' id hid'

/-- Whether a registry is consulted, with fewer scopes in use. -/
theorem isConsulted_of_live {w : Workspace β δ} {live : List ScopeId}
    (hlive : ∀ id ∈ live, id ∈ w.live) {r : RegistryId}
    (hr : ({ w with live } : Workspace β δ).isConsulted r = true) : w.isConsulted r = true := by
  rw [isConsulted_iff] at hr ⊢
  refine hr.imp_right ?_
  rintro ⟨id, hid, s, hs, hregistry⟩
  exact ⟨id, hlive id hid, s, hs, hregistry⟩

/-- **Taking out of use** what nothing refers to leaves what is listed in
use. -/
theorem Closed.sweep {w : Workspace β δ} (h : w.Closed) : w.sweep.Closed := by
  have hlive : ∀ id ∈ w.live.filter w.isReferred, id ∈ w.live :=
    fun id hid => (List.mem_filter.mp hid).1
  refine ⟨fun id hid => h.bound id (hlive id hid), fun r hr id hid => ?_⟩
  have hr' : w.isConsulted r = true := isConsulted_of_live hlive hr
  refine List.mem_filter.mpr ⟨h.listed r hr' id hid, ?_⟩
  -- A registry beyond the last one lists nothing.
  have hlength : r < w.registries.length := by
    rcases Nat.lt_or_ge r w.registries.length with hlt | hge
    · exact hlt
    · have hid' : id ∈ w.registries.getD r [] := hid
      rw [List.getD_eq_getElem?_getD, List.getElem?_eq_none hge] at hid'
      cases hid'
  rw [isReferred, Bool.or_eq_true, List.any_eq_true]
  refine Or.inr ⟨r, List.mem_range.mpr hlength, ?_⟩
  rw [hr', Bool.true_and]
  exact List.contains_iff_mem.mpr hid

theorem Closed.settle {w : Workspace β δ} (h : w.Closed) : w.settle.Closed :=
  settle_preserves Closed (fun _ h => h.sweep) h

/-- Path variables and sessions do not matter. -/
theorem Closed.of_outline {w w' : Workspace β δ} (h : w.Closed)
    (houtline : w'.outline = w.outline) : w'.Closed := by
  have hlive : w'.outline.live = w.outline.live := congrArg Workspace.live houtline
  have hregistries : w'.outline.registries = w.outline.registries :=
    congrArg Workspace.registries houtline
  have hscopes : w'.outline.scopes.length = w.outline.scopes.length :=
    congrArg (fun o => o.scopes.length) houtline
  have hconsulted : w'.isConsulted = w.isConsulted := by
    rw [← isConsulted_outline, houtline, isConsulted_outline]
  have hlisted : w'.listed = w.listed := by
    funext r
    exact congrArg (fun rs : List (List ScopeId) => rs.getD r []) hregistries
  refine h.of_fewer hlive (Nat.le_of_eq ?_) fun r hr id hid => Or.inr ?_
  · simpa only [outline, List.length_map] using hscopes.symm
  · rw [hconsulted] at hr
    rw [hlisted] at hid
    exact ⟨hr, hid⟩

/-- A scope changes, and keeps its registry. -/
theorem Closed.modifyScope {w : Workspace β δ} (h : w.Closed) (id : ScopeId) {f : Scope → Scope}
    (hf : ∀ s, (f s).registry = s.registry) : (w.modifyScope id f).Closed := by
  refine h.of_fewer rfl ?_ fun r hr k hk => Or.inr ⟨?_, hk⟩
  · exact Nat.le_of_eq (by rw [Workspace.modifyScope, List.length_modify])
  · rw [isConsulted_iff] at hr ⊢
    refine hr.imp_right ?_
    rintro ⟨k, hk, s, hs, hregistry⟩
    rw [scope?_modifyScope] at hs
    split at hs
    · obtain ⟨t, ht, rfl⟩ := Option.map_eq_some_iff.mp hs
      exact ⟨k, hk, t, ht, (hf t).symm.trans hregistry⟩
    · exact ⟨k, hk, s, hs, hregistry⟩

/-! ## 3. Sessions that are opened -/

/-- The units that a scope in use is opened with are in use. -/
theorem inUse_of_openScope {w : Workspace β δ} {id : ScopeId} (hid : id ∈ w.live) {slot : Slot}
    (hslot : slot ∈ (w.openScope id).layout) : w.inUse slot.storage = true := by
  unfold openScope at hslot
  cases hs : w.scope? id with
  | none =>
    rw [hs] at hslot
    cases hslot
  | some s =>
    simp only [hs, layout_eq] at hslot
    obtain ⟨⟨l, u, k⟩, hmem, rfl⟩ := List.mem_map.mp hslot
    exact (inUse_iff w k).mpr (Or.inl ⟨id, hid, s, hs, l, u, hmem⟩)

/-- A session that is opened on a scope in use refers to nothing else, and has
nothing staged. -/
theorem refers_of_startSave {w : Workspace β δ} (hclosed : w.Closed) {id : ScopeId}
    (hid : id ∈ w.live) :
    ∀ s ∈ (w.startSave id).parts, (∀ k, Refers s k → w.inUse k = true) ∧ s.staged = [] := by
  intro s hs
  rw [startSave, (openTree_spec w (w.tree id)).2] at hs
  obtain ⟨j, hj, rfl⟩ := List.mem_map.mp hs
  have hlive := hclosed.tree hid j ((ScopeTree.mem_postorder _ j).mp hj)
  have hstaged := w.openScope_staged j
  refine ⟨fun k hk => ?_, hstaged⟩
  rcases hk with ⟨slot, hslot, rfl⟩ | ⟨write, hwrite, _⟩
  · exact inUse_of_openScope hlive hslot
  · rw [hstaged] at hwrite
    cases hwrite

/-- A scope's session that has ended refers to what it referred to, and has
nothing staged. -/
theorem refers_of_endedIn {p : Phase} {s : ScopeSession δ} {k : StorageId}
    (h : Refers (SessionTree.endedIn p s) k) : Refers s k := by
  rcases h with hslot | ⟨write, hwrite, _⟩
  · exact Or.inl hslot
  · cases hwrite

/-! ## 4. All actions -/

theorem closed_start (backing : β) : (start backing : Workspace β δ).Closed := by
  refine ⟨fun id hid => absurd hid List.not_mem_nil, fun r hr id hid => ?_⟩
  have hid' : id ∈ ([] : List (List ScopeId)).getD r [] := hid
  rw [List.getD_nil] at hid'
  cases hid'

/-- A new scope is in use, and has nothing below it. -/
theorem Closed.addScope {w : Workspace β δ} (h : w.Closed) {s : Scope} (hs : s.registry = none) :
    (w.addScope s).2.Closed := by
  refine ⟨fun id hid => ?_, fun r hr id hid => ?_⟩
  · show id < (w.scopes ++ [s]).length
    rw [List.length_append, List.length_singleton]
    rcases List.mem_cons.mp hid with rfl | hid
    · exact Nat.lt_succ_self _
    · exact Nat.lt_succ_of_lt (h.bound id hid)
  · refine List.mem_cons_of_mem _ (h.listed r ?_ id hid)
    rw [isConsulted_iff] at hr ⊢
    refine hr.imp_right ?_
    rintro ⟨k, hk, t, ht, hregistry⟩
    have ht' : (w.scopes ++ [s])[k]? = some t := ht
    rcases List.mem_cons.mp hk with rfl | hk
    -- The new scope has no registry.
    · rw [List.getElem?_concat_length] at ht'
      rw [← Option.some.inj ht', hs] at hregistry
      cases hregistry
    · rw [List.getElem?_append_left (h.bound k hk)] at ht'
      exact ⟨k, hk, t, ht', hregistry⟩

/-- A new registry lists nothing. -/
theorem Closed.attach {w : Workspace β δ} (h : w.Closed) (id : ScopeId) :
    (w.attach id).2.Closed := by
  refine Closed.settle (h.of_fewer rfl ?_ fun r hr k hk => ?_)
  · exact Nat.le_of_eq (by rw [Workspace.modifyScope, List.length_modify])
  · have hk' : k ∈ (w.registries ++ [[]]).getD r [] := hk
    rcases Nat.lt_or_ge r w.registries.length with hlt | hge
    · rw [List.getD_eq_getElem?_getD, List.getElem?_append_left hlt,
        ← List.getD_eq_getElem?_getD] at hk'
      refine Or.inr ⟨?_, hk'⟩
      -- The new registry is the last one, so whoever consults this one did so before.
      rw [isConsulted_iff] at hr ⊢
      rcases hr with hheld | ⟨j, hj, s, hs, hregistry⟩
      · rcases List.mem_cons.mp hheld with rfl | hheld
        · exact absurd hlt (Nat.lt_irrefl _)
        · exact Or.inl hheld
      · rw [scope?_modifyScope] at hs
        split at hs
        · obtain ⟨t, _, rfl⟩ := Option.map_eq_some_iff.mp hs
          have hr : w.registries.length = r := Option.some.inj hregistry
          exact absurd hlt (hr ▸ Nat.lt_irrefl _)
        · exact Or.inr ⟨j, hj, s, hs, hregistry⟩
    · rw [List.getD_eq_getElem?_getD, List.getElem?_append_right hge] at hk'
      cases hr' : r - w.registries.length with
      | zero =>
        rw [hr'] at hk'
        cases hk'
      | succ n =>
        rw [hr'] at hk'
        cases hk'

/-- What a registry lists after one of the lists has changed. -/
theorem mem_listed_modify {w : Workspace β δ} {id r : RegistryId}
    {f : List ScopeId → List ScopeId} {k : ScopeId} {P : Prop}
    (hf : ∀ ids, k ∈ f ids → k ∈ ids ∨ P)
    (hk : k ∈ ({ w with registries := w.registries.modify id f } : Workspace β δ).listed r) :
    k ∈ w.listed r ∨ P := by
  rw [listed, List.getD_eq_getElem?_getD, List.getElem?_modify] at hk
  rw [listed, List.getD_eq_getElem?_getD]
  cases hids : w.registries[r]? with
  | none =>
    rw [hids] at hk
    cases hk
  | some ids =>
    rw [hids] at hk
    simp only [Option.map_eq_map, Option.map_some, Option.getD_some] at hk ⊢
    split at hk
    · exact hf ids hk
    · exact Or.inl hk

/-- A scope in use is listed. -/
theorem Closed.list {w : Workspace β δ} (h : w.Closed) (r : RegistryId) {child : ScopeId}
    (hchild : child ∈ w.live) : (w.register r child).Closed := by
  refine h.of_fewer rfl (Nat.le_refl _) fun r' hr k hk => ?_
  have hadded : ∀ ids : List ScopeId, k ∈ (if ids.contains child then ids else ids ++ [child]) →
      k ∈ ids ∨ k = child := by
    intro ids hmem
    split at hmem
    · exact Or.inl hmem
    · exact (List.mem_append.mp hmem).imp_right List.mem_singleton.mp
  rcases mem_listed_modify hadded hk with hk | rfl
  · exact Or.inr ⟨hr, hk⟩
  · exact Or.inl hchild

theorem Closed.unlist {w : Workspace β δ} (h : w.Closed) (r : RegistryId) (child : ScopeId) :
    (w.unregister r child).Closed := by
  refine Closed.settle (h.of_fewer rfl (Nat.le_refl _) fun r' hr k hk => Or.inr ⟨hr, ?_⟩)
  have hremoved : ∀ ids : List ScopeId, k ∈ ids.filter (· ≠ child) → k ∈ ids ∨ False :=
    fun ids hmem => Or.inl (List.mem_filter.mp hmem).1
  exact (mem_listed_modify hremoved hk).resolve_right id

section Acting

variable [Backing β] [DecidableEq δ] [Digest δ] {w : Workspace β δ}

/-- **Registering a component** changes nothing about what is below what. -/
theorem Closed.addComponent (h : w.Closed) (id : ScopeId) (component : ComponentId)
    (name template : String) : (w.addComponent id component name template).2.Closed := by
  rcases w.addComponent_cases id component name template with
    ⟨houtline, _⟩ | ⟨w₁, s, unit, k, w₂, houtline, _, _, hfound, hout⟩
  · exact h.of_outline houtline
  · have hclosed₁ : w₁.Closed := h.of_outline houtline
    have hclosed₂ : w₂.Closed := by
      rcases storageFor_cases hfound with
        ⟨_, _, rfl⟩ | ⟨_, ⟨_, _, rfl⟩ | ⟨snapshot, _, _, _, rfl⟩⟩
      · exact hclosed₁
      · exact hclosed₁.modifyScope id fun _ => rfl
      · have hadded : (w₁.addStorage s.pool { unit, template, snapshot }).Closed :=
          ⟨hclosed₁.bound, hclosed₁.listed⟩
        exact hadded.modifyScope id fun _ => rfl
    rw [hout]
    exact (hclosed₂.of_outline (loadComponent_effect w₂ id name ⟨component, k⟩).outline).modifyScope
      id fun _ => rfl

/-- **Every action leaves in use what is below a scope in use.** -/
theorem Closed.act (h : w.Closed) {a : Action β} (hpossible : w.Possible a) :
    (w.act a).Closed := by
  have hsession : ∀ handle
      (call : SessionTree (ScopeSession δ) → Vault β δ → SessionTree (ScopeSession δ) × Vault β δ),
      (w.onSession handle call).Closed := by
    intro handle call
    unfold Workspace.onSession
    split
    · exact h
    · exact ⟨h.bound, h.listed⟩
  cases a with
  | addPool => exact ⟨h.bound, h.listed⟩
  | addScope name substitutor pool => exact h.addScope rfl
  | addComponent component => exact ⟨h.bound, h.listed⟩
  | attach scope => exact h.attach scope
  | list registry scope => exact h.list registry (hpossible scope rfl)
  | unlist registry scope => exact h.unlist registry scope
  | release scope =>
    refine Closed.settle ?_
    exact ⟨h.bound, h.listed⟩
  | releaseRegistry registry =>
    refine Closed.settle (h.of_fewer rfl (Nat.le_refl _) fun r hr k hk => Or.inr ⟨?_, hk⟩)
    rw [isConsulted_iff] at hr ⊢
    exact hr.imp_left fun hheld => (List.mem_filter.mp hheld).1
  | register scope component name template => exact h.addComponent scope component name template
  | edit component change => exact ⟨h.bound, h.listed⟩
  | expand scope text forget =>
    exact h.of_outline (expandIn_effect text forget (w.withSubstitutors scope) w).1
  | reinit scope names reload => exact h.of_outline (reinit_effect w scope names reload).outline
  | save scope =>
    rw [Workspace.act, (save_keeps w scope).1]
    exact ⟨h.bound, h.listed⟩
  | openSession handle scope => exact ⟨h.bound, h.listed⟩
  | saveSession handle =>
    rw [Workspace.act]
    exact hsession handle _
  | finishSession handle =>
    rw [Workspace.act]
    exact hsession handle _
  | resetSession handle =>
    rw [Workspace.act]
    exact hsession handle _
  | dropSession handle => exact ⟨h.bound, h.listed⟩
  | disturb change => exact ⟨h.bound, h.listed⟩

end Acting

end Workspace

end ScopedState
