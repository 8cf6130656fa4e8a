/-
`Proofs/Workspace/Alike.lean` -- workspaces that differ in noted names only.

A scope notes the names that it was asked to expand and did not know. The notes can be
read, and forgotten, and nothing else is done with them: no operation decides anything
by them. Two workspaces that differ in notes only are alike (`Alike`), and what is
proved here is that they stay alike, whatever happens to both of them (`Alike.run`).

The argument goes operation by operation, and there is one fact behind all of it. What
an operation does to a scope depends on the scope without its notes, and so does what
the scope becomes, apart from the notes (`Alike.modifyScope`). Where path variables are
used, the text that comes out depends on the variables, and the notes that come in only
go into the notes that come out (`expandWith_forget`). The rest are fields that are the
same on both sides.
-/
import ScopedState.Proofs.Project.Opened
import ScopedState.Proofs.Workspace.Effect
set_option autoImplicit false

namespace ScopedState

variable {β δ : Type}

/-- A scope without its notes. -/
def Scope.forget (s : Scope) : Scope :=
  { s with substitutor := s.substitutor.map Substitutor.forget }

/-- Variables without notes are a table. -/
theorem Substitutor.forget_eq_iff {s t : Substitutor} :
    t.forget = s.forget ↔ t.table = s.table := by
  rw [forget, forget, Substitutor.mk.injEq]
  simp only [and_true]

/-- Scopes that differ in notes have everything else from each other. -/
theorem Scope.exists_of_forget {s t : Scope} (h : t.forget = s.forget) :
    ∃ sub, t = { s with substitutor := sub } ∧
      sub.map Substitutor.forget = s.substitutor.map Substitutor.forget := by
  rw [forget, forget, Scope.mk.injEq] at h
  obtain ⟨hname, hsub, hcomponents, hstorages, hpool, hregistry⟩ := h
  refine ⟨t.substitutor, ?_, hsub⟩
  rw [← hname, ← hcomponents, ← hstorages, ← hpool, ← hregistry]

/-- **Expanding a value** depends on the variables, and notes lead to notes only. -/
theorem Substitutor.expandWith_forget {s t : Option Substitutor}
    (h : t.map forget = s.map forget) (v : Json) :
    (expandWith t v).1 = (expandWith s v).1 ∧
      (expandWith t v).2.map forget = (expandWith s v).2.map forget := by
  cases s with
  | none =>
    rw [Option.map_none, Option.map_eq_none_iff] at h
    rw [h]
    exact ⟨rfl, rfl⟩
  | some sub =>
    obtain ⟨sub', rfl, hsub⟩ := Option.map_eq_some_iff.mp h
    have htable := forget_eq_iff.mp hsub
    refine ⟨?_, congrArg some (forget_eq_iff.mpr htable)⟩
    show sub'.table.expandValue v = sub.table.expandValue v
    rw [htable]

namespace Workspace

/-! ## 1. Alike -/

/-- **Workspaces that differ in noted names only.** -/
structure Alike (w w' : Workspace β δ) : Prop where
  vault : w'.vault = w.vault
  scope : ∀ id, (w'.scope? id).map Scope.forget = (w.scope? id).map Scope.forget
  registries : w'.registries = w.registries
  pools : w'.pools = w.pools
  held : w'.held = w.held
  heldRegistries : w'.heldRegistries = w.heldRegistries
  live : w'.live = w.live
  sessions : w'.sessions = w.sessions

namespace Alike

variable {w w' : Workspace β δ}

theorem refl (w : Workspace β δ) : Alike w w := ⟨rfl, fun _ => rfl, rfl, rfl, rfl, rfl, rfl, rfl⟩

/-- A scope of the one is a scope of the other, or there is none in both. -/
theorem scope_cases (h : Alike w w') (id : ScopeId) :
    (w.scope? id = none ∧ w'.scope? id = none) ∨
      ∃ s t, w.scope? id = some s ∧ w'.scope? id = some t ∧ t.forget = s.forget := by
  have hscope := h.scope id
  cases hs : w.scope? id with
  | none =>
    rw [hs, Option.map_none, Option.map_eq_none_iff] at hscope
    exact Or.inl ⟨rfl, hscope⟩
  | some s =>
    rw [hs, Option.map_some] at hscope
    obtain ⟨t, ht, hsame⟩ := Option.map_eq_some_iff.mp hscope
    exact Or.inr ⟨s, t, rfl, ht, hsame⟩

/-- The scopes of both have the same variables in the same state, notes apart. -/
theorem substitutor (h : Alike w w') (id : ScopeId) :
    ((w'.scope? id).bind Scope.substitutor).map Substitutor.forget
      = ((w.scope? id).bind Scope.substitutor).map Substitutor.forget := by
  rcases h.scope_cases id with ⟨hs, ht⟩ | ⟨s, t, hs, ht, hsame⟩
  · rw [hs, ht]
  · rw [hs, ht]
    exact congrArg Scope.substitutor hsame

/-- What can be told of a scope without its notes is told alike. -/
theorem elim_scope (h : Alike w w') (id : ScopeId) {α : Type} (none : α) {f : Scope → α}
    (hf : ∀ s, f s.forget = f s) : (w'.scope? id).elim none f = (w.scope? id).elim none f := by
  rcases h.scope_cases id with ⟨hs, ht⟩ | ⟨s, t, hs, ht, hsame⟩
  · rw [hs, ht]
  · rw [hs, ht, Option.elim_some, Option.elim_some, ← hf, hsame, hf]

theorem bind_scope (h : Alike w w') (id : ScopeId) {α : Type} {f : Scope → Option α}
    (hf : ∀ s, f s.forget = f s) : (w'.scope? id).bind f = (w.scope? id).bind f := by
  rcases h.scope_cases id with ⟨hs, ht⟩ | ⟨s, t, hs, ht, hsame⟩
  · rw [hs, ht]
  · rw [hs, ht, Option.bind_some, Option.bind_some, ← hf, hsame, hf]

theorem any_scope (h : Alike w w') (id : ScopeId) {f : Scope → Bool}
    (hf : ∀ s, f s.forget = f s) : (w'.scope? id).any f = (w.scope? id).any f := by
  rcases h.scope_cases id with ⟨hs, ht⟩ | ⟨s, t, hs, ht, hsame⟩
  · rw [hs, ht]
  · rw [hs, ht, Option.any_some, Option.any_some, ← hf, hsame, hf]

/-- There are as many scopes. -/
theorem length (h : Alike w w') : w'.scopes.length = w.scopes.length := by
  have hscopes : w'.scopes.map Scope.forget = w.scopes.map Scope.forget := by
    refine List.ext_getElem? fun id => ?_
    rw [List.getElem?_map, List.getElem?_map]
    exact h.scope id
  rw [← List.length_map (f := Scope.forget), hscopes, List.length_map]

/-- Their outlines are the same. -/
theorem outline (h : Alike w w') : w'.outline = w.outline := by
  have hscopes : w'.outline.scopes = w.outline.scopes := by
    refine List.ext_getElem? fun id => ?_
    have hscope := congrArg (Option.map fun s => ({ s with substitutor := none } : Scope))
      (h.scope id)
    rw [Option.map_map, Option.map_map] at hscope
    exact ((w'.scope?_outline id).trans hscope).trans (w.scope?_outline id).symm
  rw [Workspace.outline, Workspace.outline, Workspace.mk.injEq]
  exact ⟨rfl, hscopes, h.registries, h.pools, h.held, h.heldRegistries, h.live, h.sessions⟩

/-- **What a session captures** is the same. -/
theorem startSave (h : Alike w w') (id : ScopeId) : w'.startSave id = w.startSave id := by
  have hlayout : ∀ s t : Scope, t.forget = s.forget → w'.layout t = w.layout s := by
    intro s t hsame
    obtain ⟨sub, rfl, -⟩ := Scope.exists_of_forget hsame
    rw [layout, layout, h.vault]
  have hopen : w'.openScope = w.openScope := by
    funext id
    unfold openScope
    rcases h.scope_cases id with ⟨hs, ht⟩ | ⟨s, t, hs, ht, hsame⟩
    · rw [hs, ht]
    · have hslots := hlayout s t hsame
      obtain ⟨sub, rfl, hsub⟩ := Scope.exists_of_forget hsame
      have htable : sub.map Substitutor.table = s.substitutor.map Substitutor.table := by
        have htables := congrArg (Option.map Substitutor.table) hsub
        rwa [Option.map_map, Option.map_map] at htables
      simp only [hs, ht, htable, hslots]
  rw [Workspace.startSave, Workspace.startSave, openTree_congr hopen, tree_of_outline h.outline]

/-! ## 2. One operation -/

/-- **Changing a scope** alike keeps workspaces alike. -/
theorem modifyScope (h : Alike w w') (id : ScopeId) {f g : Scope → Scope}
    (hfg : ∀ s t, w.scope? id = some s → w'.scope? id = some t → t.forget = s.forget →
      (g t).forget = (f s).forget) : Alike (w.modifyScope id f) (w'.modifyScope id g) := by
  refine { h with scope := fun j => ?_ }
  rw [scope?_modifyScope, scope?_modifyScope]
  split
  · rename_i hj
    rw [hj]
    rcases h.scope_cases id with ⟨hs, ht⟩ | ⟨s, t, hs, ht, hsame⟩
    · rw [hs, ht]
      rfl
    · rw [hs, ht]
      exact congrArg some (hfg s t hs ht hsame)
  · exact h.scope j

/-- Another vault for both. -/
theorem withVault (h : Alike w w') (v : Vault β δ) :
    Alike { w with vault := v } { w' with vault := v } := { h with vault := rfl }

/-- A scope more. -/
theorem addScope (h : Alike w w') (s : Scope) : Alike (w.addScope s).2 (w'.addScope s).2 := by
  have hlength := h.length
  refine
    { h with
      scope := fun id => ?_
      held := ?_
      live := ?_ }
  · show ((w'.scopes ++ [s])[id]?).map _ = ((w.scopes ++ [s])[id]?).map _
    rw [List.getElem?_append, List.getElem?_append, hlength]
    split
    · exact h.scope id
    · rfl
  · show w'.scopes.length :: w'.held = w.scopes.length :: w.held
    rw [hlength, h.held]
  · show w'.scopes.length :: w'.live = w.scopes.length :: w.live
    rw [hlength, h.live]

/-- A round of taking out of use. -/
theorem sweep (h : Alike w w') : Alike w.sweep w'.sweep := by
  -- Whether a scope is referred to is read off the outline, where there are no notes.
  have hconsulted : w'.isConsulted = w.isConsulted := by
    rw [← isConsulted_outline, h.outline, isConsulted_outline]
  have hreferred : w'.isReferred = w.isReferred := by
    funext id
    unfold isReferred listed
    rw [h.held, h.registries, hconsulted]
  refine { h with live := ?_ }
  show w'.live.filter w'.isReferred = w.live.filter w.isReferred
  rw [h.live, hreferred]

/-- As many rounds as there are scopes. -/
theorem settle (h : Alike w w') : Alike w.settle w'.settle := by
  -- The rounds are counted by the scopes, which are other ones on both sides: only their
  -- number is the same.
  have hrounds : ∀ rounds rounds' : List Scope, rounds'.length = rounds.length →
      ∀ {a b : Workspace β δ}, Alike a b →
        Alike (rounds.foldl (fun w _ => w.sweep) a) (rounds'.foldl (fun w _ => w.sweep) b) := by
    intro rounds
    induction rounds with
    | nil =>
      intro rounds' hlength a b hab
      rw [List.length_nil, List.length_eq_zero_iff] at hlength
      rw [hlength]
      exact hab
    | cons s rounds ih =>
      intro rounds' hlength a b hab
      cases rounds' with
      | nil => cases hlength
      | cons t rounds' => exact ih rounds' (Nat.succ.inj hlength) hab.sweep
  exact hrounds _ _ h.length h

/-- A scope gets a registry. -/
theorem attach (h : Alike w w') (id : ScopeId) : Alike (w.attach id).2 (w'.attach id).2 := by
  have hnew : Alike
      { w with
        registries := w.registries ++ [[]]
        heldRegistries := w.registries.length :: w.heldRegistries }
      { w' with
        registries := w'.registries ++ [[]]
        heldRegistries := w'.registries.length :: w'.heldRegistries } :=
    { h with
      registries := by rw [h.registries]
      heldRegistries := by rw [h.registries, h.heldRegistries] }
  refine (hnew.modifyScope id fun s t _ _ hsame => ?_).settle
  obtain ⟨sub, rfl, hsub⟩ := Scope.exists_of_forget hsame
  rw [h.registries]
  exact congrArg (fun sub => ({ s with
    substitutor := sub, registry := some w.registries.length } : Scope)) hsub

/-- A scope is listed. -/
theorem list (h : Alike w w') (r : RegistryId) (id : ScopeId) :
    Alike (w.register r id) (w'.register r id) := by
  refine { h with registries := ?_ }
  show w'.registries.modify r _ = w.registries.modify r _
  rw [h.registries]

/-- A scope is taken off a registry. -/
theorem unlist (h : Alike w w') (r : RegistryId) (id : ScopeId) :
    Alike (w.unregister r id) (w'.unregister r id) := by
  refine Alike.settle { h with registries := ?_ }
  show w'.registries.modify r _ = w.registries.modify r _
  rw [h.registries]

/-- The caller lets go of a scope. -/
theorem release (h : Alike w w') (id : ScopeId) : Alike (w.release id) (w'.release id) := by
  refine Alike.settle { h with held := ?_ }
  show w'.held.filter _ = w.held.filter _
  rw [h.held]

/-- The caller lets go of a registry. -/
theorem releaseRegistry (h : Alike w w') (id : RegistryId) :
    Alike (w.releaseRegistry id) (w'.releaseRegistry id) := by
  refine Alike.settle { h with heldRegistries := ?_ }
  show w'.heldRegistries.filter _ = w.heldRegistries.filter _
  rw [h.heldRegistries]

/-- Texts are expanded in some scopes. -/
theorem expandIn (text : String) (forget : Bool) (ids : List ScopeId) (h : Alike w w') :
    Alike (w.expandIn text forget ids).2 (w'.expandIn text forget ids).2 := by
  induction ids generalizing w w' with
  | nil => exact h
  | cons id ids ih =>
    have hsub := h.substitutor id
    rw [Workspace.expandIn, Workspace.expandIn]
    cases hs : (w.scope? id).bind Scope.substitutor with
    | none =>
      rw [hs, Option.map_none, Option.map_eq_none_iff] at hsub
      rw [hsub]
      exact ih h
    | some sub =>
      rw [hs, Option.map_some] at hsub
      obtain ⟨sub', hs', hsame⟩ := Option.map_eq_some_iff.mp hsub
      have htable := Substitutor.forget_eq_iff.mp hsame
      simp only [hs']
      refine ih (h.modifyScope id fun s t _ _ hst => ?_)
      -- Whatever was noted, the variables are the same afterwards.
      have hafter : Substitutor.forget ((if forget then sub'.forget else sub').expand text).2
          = Substitutor.forget ((if forget then sub.forget else sub).expand text).2 := by
        rw [Substitutor.forget_eq_iff]
        cases forget <;> exact htable
      obtain ⟨_, rfl, -⟩ := Scope.exists_of_forget hst
      exact congrArg (fun sub => ({ s with substitutor := some sub } : Scope)) hafter

/-- Texts are expanded in the scopes of a tree. -/
theorem expandEach (h : Alike w w') (id : ScopeId) (text : String) (forget : Bool) :
    Alike (w.expandEach id text forget).2 (w'.expandEach id text forget).2 := by
  have hwith : w'.withSubstitutors id = w.withSubstitutors id := by
    unfold withSubstitutors
    rw [tree_of_outline h.outline]
    congr 1
    funext j
    rw [← Option.isSome_map, h.substitutor j, Option.isSome_map]
  unfold Workspace.expandEach
  rw [hwith]
  exact h.expandIn text forget _

/-- A component is handed what is stored. -/
theorem loadComponent (h : Alike w w') (id : ScopeId) (name : String) (entry : Entry) :
    Alike (w.loadComponent id name entry) (w'.loadComponent id name entry) := by
  unfold Workspace.loadComponent
  rw [h.vault]
  split
  · exact h.withVault _
  · rename_i stored _
    obtain ⟨hvalue, hnotes⟩ := Substitutor.expandWith_forget (h.substitutor id) stored
    simp only [hvalue]
    refine (h.withVault _).modifyScope id fun s t _ _ hst => ?_
    obtain ⟨_, rfl, -⟩ := Scope.exists_of_forget hst
    exact congrArg (fun sub => ({ s with substitutor := sub } : Scope)) hnotes

/-- **The unit of a template** is the same. -/
theorem expandTemplate (h : Alike w w') (id : ScopeId) (template : String) :
    (w'.expandTemplate id template).1 = (w.expandTemplate id template).1 ∧
      Alike (w.expandTemplate id template).2 (w'.expandTemplate id template).2 := by
  have hsub := h.substitutor id
  unfold Workspace.expandTemplate
  cases hs : (w.scope? id).bind Scope.substitutor with
  | none =>
    rw [hs, Option.map_none, Option.map_eq_none_iff] at hsub
    rw [hsub]
    exact ⟨rfl, h⟩
  | some sub =>
    rw [hs, Option.map_some] at hsub
    obtain ⟨sub', hs', hsame⟩ := Option.map_eq_some_iff.mp hsub
    have htable := Substitutor.forget_eq_iff.mp hsame
    have hafter : (sub'.expand template).2.forget = (sub.expand template).2.forget :=
      Substitutor.forget_eq_iff.mpr htable
    simp only [hs']
    refine ⟨?_, h.modifyScope id fun s t _ _ hst => ?_⟩
    · show (⟨sub'.table.expand template⟩ : Path) = ⟨sub.table.expand template⟩
      rw [htable]
    · obtain ⟨_, rfl, -⟩ := Scope.exists_of_forget hst
      exact congrArg (fun sub => ({ s with substitutor := some sub } : Scope)) hafter

/-- A call on a session. -/
theorem onSession (h : Alike w w') (handle : String)
    (call : SessionTree (ScopeSession δ) → Vault β δ →
      SessionTree (ScopeSession δ) × Vault β δ) :
    Alike (w.onSession handle call) (w'.onSession handle call) := by
  unfold Workspace.onSession
  rw [h.sessions, h.vault]
  split
  · exact h
  · exact { h with vault := rfl, sessions := rfl }

section Reading

variable [Backing β] [Digest δ]

/-- The named components of a scope are handed what is stored. -/
theorem reinitOwn (h : Alike w w') (id : ScopeId) (names : List String) (reload : Bool) :
    (w'.reinitOwn id names reload).1 = (w.reinitOwn id names reload).1 ∧
      Alike (w.reinitOwn id names reload).2 (w'.reinitOwn id names reload).2 := by
  have hloads : ∀ (ts : List (String × Entry)) {a b : Workspace β δ}, Alike a b →
      Alike (ts.foldl (fun w t => w.loadComponent id t.1 t.2) a)
        (ts.foldl (fun w t => w.loadComponent id t.1 t.2) b) := by
    intro ts
    induction ts with
    | nil => exact fun hab => hab
    | cons t ts ih => exact fun hab => ih (hab.loadComponent id t.1 t.2)
  unfold Workspace.reinitOwn
  rw [h.elim_scope id [] (f := fun s => targets s names) fun _ => rfl, h.vault]
  simp only []
  split
  · exact ⟨rfl, h.withVault _⟩
  · exact ⟨rfl, hloads _ (h.withVault _)⟩

mutual

/-- So are those of a tree of scopes. -/
theorem reinitTree (names : List String) (reload : Bool) :
    ∀ (t : ScopeTree) {w w' : Workspace β δ}, Alike w w' →
      (Workspace.reinitTree names reload t w').1 = (Workspace.reinitTree names reload t w).1 ∧
        Alike (Workspace.reinitTree names reload t w).2 (Workspace.reinitTree names reload t w').2
  | .node id children, w, w', h => by
    obtain ⟨hsame, halike⟩ := h.reinitOwn id names reload
    rw [Workspace.reinitTree, Workspace.reinitTree]
    cases hown : w.reinitOwn id names reload with
    | mk outcome a =>
      cases hown' : w'.reinitOwn id names reload with
      | mk outcome' b =>
        rw [hown, hown'] at hsame halike
        obtain rfl : outcome' = outcome := hsame
        cases outcome' with
        | error e => exact ⟨rfl, halike⟩
        | ok _ => exact reinitAll names reload children halike

/-- And those of a list of trees. -/
theorem reinitAll (names : List String) (reload : Bool) :
    ∀ (ts : List ScopeTree) {w w' : Workspace β δ}, Alike w w' →
      (Workspace.reinitAll names reload ts w').1 = (Workspace.reinitAll names reload ts w).1 ∧
        Alike (Workspace.reinitAll names reload ts w).2 (Workspace.reinitAll names reload ts w').2
  | [], w, w', h => ⟨rfl, h⟩
  | t :: ts, w, w', h => by
    obtain ⟨hsame, halike⟩ := reinitTree names reload t h
    rw [Workspace.reinitAll, Workspace.reinitAll]
    cases htree : Workspace.reinitTree names reload t w with
    | mk outcome a =>
      cases htree' : Workspace.reinitTree names reload t w' with
      | mk outcome' b =>
        rw [htree, htree'] at hsame halike
        obtain rfl : outcome' = outcome := hsame
        cases outcome' with
        | error e => exact ⟨rfl, halike⟩
        | ok _ => exact reinitAll names reload ts halike

end

variable [DecidableEq δ]

/-- **The storage of a unit** is the same, or the failure is. -/
theorem storageFor (h : Alike w w') (id : ScopeId) {s t : Scope} (hst : t.forget = s.forget)
    (unit : Path) (template : String) :
    (∃ e, w.storageFor id s unit template = .error e ∧
        w'.storageFor id t unit template = .error e) ∨
      ∃ k a b, w.storageFor id s unit template = .ok (k, a) ∧
        w'.storageFor id t unit template = .ok (k, b) ∧ Alike a b := by
  obtain ⟨sub, rfl, -⟩ := Scope.exists_of_forget hst
  have hsame : w'.pool s.pool = w.pool s.pool := by
    rw [pool, pool, h.pools]
  unfold Workspace.storageFor
  simp only [hsame, inUse_of_outline h.outline, h.vault, h.pools]
  split
  · exact Or.inr ⟨_, w, w', rfl, rfl, h⟩
  · split
    · exact Or.inl ⟨_, rfl, rfl⟩
    · -- A storage was found in the pool or loaded, and the scope maps it.
      rename_i k pool v _
      refine Or.inr ⟨k, _, _, rfl, rfl, ?_⟩
      have hmade : Alike { w with vault := v, pools := w.pools.set s.pool pool }
          { w' with vault := v, pools := w.pools.set s.pool pool } :=
        { h with vault := rfl, pools := rfl }
      refine hmade.modifyScope id fun s t _ _ hst => ?_
      obtain ⟨_, rfl, hsub⟩ := Scope.exists_of_forget hst
      exact congrArg (fun sub => ({ s with
        substitutor := sub
        storages := Bindings.insert s.storages unit.location (unit, k) } : Scope)) hsub

/-- **Registering a component** has the same result, and alike effects. -/
theorem addComponent (h : Alike w w') (id : ScopeId) (component : ComponentId)
    (name template : String) :
    (w'.addComponent id component name template).1 = (w.addComponent id component name template).1 ∧
      Alike (w.addComponent id component name template).2
        (w'.addComponent id component name template).2 := by
  unfold Workspace.addComponent
  have hbound := h.any_scope id (f := fun s => Bindings.binds s.components name) fun _ => rfl
  obtain ⟨hunit, hexpanded⟩ := h.expandTemplate id template
  rw [hbound]
  split
  · exact ⟨rfl, h⟩
  · -- The template is expanded first, which may leave notes even if no storage is found.
    simp only []
    rw [hunit]
    rcases hexpanded.scope_cases id with ⟨hs, ht⟩ | ⟨s, t, hs, ht, hst⟩
    · rw [hs, ht]
      exact ⟨rfl, hexpanded⟩
    · rw [hs, ht]
      rcases hexpanded.storageFor id hst (w.expandTemplate id template).1 template with
        ⟨e, hfails, hfails'⟩ | ⟨k, a, b, hfound, hfound', hab⟩
      · simp only [hfails, hfails']
        exact ⟨trivial, hexpanded⟩
      · simp only [hfound, hfound']
        refine ⟨trivial, (hab.loadComponent id name ⟨component, k⟩).modifyScope id ?_⟩
        intro s t _ _ hst
        obtain ⟨_, rfl, hsub⟩ := Scope.exists_of_forget hst
        exact congrArg (fun sub => ({ s with
          substitutor := sub
          components := Bindings.insert s.components name ⟨component, k⟩ } : Scope)) hsub

/-- **A save** ends alike. -/
theorem save (h : Alike w w') (id : ScopeId) :
    (w'.save id).1 = (w.save id).1 ∧ Alike (w.save id).2 (w'.save id).2 := by
  unfold Workspace.save
  simp only [h.startSave, h.vault]
  split
  · exact ⟨rfl, h.withVault _⟩
  · exact ⟨rfl, h.withVault _⟩

/-! ## 3. All actions -/

/-- **Whatever happens to both**, workspaces stay alike. -/
theorem act (h : Alike w w') (a : Action β) : Alike (w.act a) (w'.act a) := by
  cases a with
  | addPool =>
    refine { h with pools := ?_ }
    show w'.pools ++ [[]] = w.pools ++ [[]]
    rw [h.pools]
  | addScope name substitutor pool => exact h.addScope _
  | addComponent component =>
    refine { h with vault := ?_ }
    show (w'.vault.addComponent component).2 = (w.vault.addComponent component).2
    rw [h.vault]
  | attach id => exact h.attach id
  | list r id => exact h.list r id
  | unlist r id => exact h.unlist r id
  | release id => exact h.release id
  | releaseRegistry r => exact h.releaseRegistry r
  | register id component name template => exact (h.addComponent id component name template).2
  | edit component change =>
    refine { h with vault := ?_ }
    show w'.vault.modifyComponent component change = w.vault.modifyComponent component change
    rw [h.vault]
  | expand id text forget => exact h.expandEach id text forget
  | reinit id names reload =>
    show Alike (Workspace.reinitTree _ reload (w.tree id) w).2
      (Workspace.reinitTree _ reload (w'.tree id) w').2
    rw [tree_of_outline h.outline]
    exact (reinitTree _ reload (w.tree id) h).2
  | save id => exact (h.save id).2
  | openSession handle id =>
    refine { h with sessions := ?_ }
    show Bindings.insert w'.sessions handle (w'.startSave id)
      = Bindings.insert w.sessions handle (w.startSave id)
    rw [h.sessions, h.startSave]
  | saveSession handle => exact h.onSession handle fun t v => ((t.save v).session, (t.save v).world)
  | finishSession handle =>
    exact h.onSession handle fun t v => ((t.finish v).session, (t.finish v).world)
  | resetSession handle =>
    exact h.onSession handle fun t v => ((t.reset v).session, (t.reset v).world)
  | dropSession handle =>
    refine { h with sessions := ?_ }
    show Bindings.erase w'.sessions handle = Bindings.erase w.sessions handle
    rw [h.sessions]
  | disturb change =>
    refine { h with vault := ?_ }
    show ({ w'.vault with backing := change w'.vault.backing } : Vault β δ)
      = { w.vault with backing := change w.vault.backing }
    rw [h.vault]

/-- **A course of events** leaves them alike. -/
theorem run (h : Alike w w') (actions : List (Action β)) :
    Alike (w.run actions) (w'.run actions) := by
  induction actions generalizing w w' with
  | nil => exact h
  | cons a actions ih => exact ih (h.act a)

end Reading

end Alike

end Workspace

end ScopedState
