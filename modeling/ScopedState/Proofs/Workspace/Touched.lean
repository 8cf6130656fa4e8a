/-
`Proofs/Workspace/Touched.lean` -- which components a reload touches.

A reload is told names, and names are only unique within a scope. It goes to
every scope of the tree with all of them: a component is handed a state when it
is registered somewhere in the tree under one of the names, and is left alone
otherwise (`reinit_hands`).

The names come out of an analysis, which has gathered them over all scopes. One
is among them when some scope has it in a unit that is affected and in which
its entry differs (`mem_names_iff`). So a name that was found in one scope
reaches the components of that name in all other scopes as well, those with
edits that nobody has saved among them, although nothing has become of their
units.
-/
import Mathlib.Data.List.Basic
import ScopedState.Backing.Memory
import ScopedState.Proofs.Session.Analysis
import ScopedState.Proofs.Workspace.Kept
import ScopedState.Proofs.Workspace.Reload
set_option autoImplicit false

namespace ScopedState

open Bindings (get?)

variable {β δ : Type}

namespace Vault

/-- A component is handed a state if something touches it, and else is left
alone. -/
structure Hands (v v' : Vault β δ) (c : ComponentId) (touched : Prop) : Prop where
  alone : ¬ touched → v'.component? c = v.component? c
  loaded : touched → ∀ x, v.component? c = some x →
    ∃ x', v'.component? c = some x' ∧ x.loads < x'.loads

namespace Hands

variable {v v' v'' : Vault β δ} {c : ComponentId} {p q : Prop}

theorem of_eq (h : v'.components = v.components) (hp : ¬ p) : Hands v v' c p := by
  refine ⟨fun _ => ?_, fun hp' => absurd hp' hp⟩
  rw [component?, component?, h]

theorem congr (h : Hands v v' c p) (hpq : p ↔ q) : Hands v v' c q := by
  have heq : p = q := propext hpq
  rw [← heq]
  exact h

/-- **One step after the other** touches what either touches. -/
theorem trans (h : Hands v v' c p) (h' : Hands v' v'' c q) : Hands v v'' c (p ∨ q) := by
  refine ⟨fun hnot => ?_, fun htouched x hx => ?_⟩
  · obtain ⟨hp, hq⟩ := not_or.mp hnot
    exact (h'.alone hq).trans (h.alone hp)
  · by_cases hp : p
    · obtain ⟨x', hx', hlt⟩ := h.loaded hp x hx
      by_cases hq : q
      · obtain ⟨x'', hx'', hlt'⟩ := h'.loaded hq x' hx'
        exact ⟨x'', hx'', Nat.lt_trans hlt hlt'⟩
      · exact ⟨x', (h'.alone hq).trans hx', hlt⟩
    · have hq : q := htouched.resolve_left hp
      exact h'.loaded hq x ((h.alone hp).trans hx)

end Hands

theorem component?_modifyComponent (v : Vault β δ) (id : ComponentId) (f : Component → Component)
    (c : ComponentId) :
    (v.modifyComponent id f).component? c
      = if c = id then (v.component? c).map f else v.component? c := by
  rw [component?, modifyComponent, List.getElem?_modify]
  by_cases hc : c = id
  · simp only [if_pos hc, if_pos hc.symm, Option.map_eq_map]
    rfl
  · simp only [if_neg hc, if_neg (Ne.symm hc), Option.map_eq_map, Option.map_id']
    rfl

/-- A component that is loaded is handed a state. -/
theorem hands_load (v : Vault β δ) (id c : ComponentId) (stored : Option Json) :
    Hands v (v.modifyComponent id fun x => x.load stored) c (id = c) := by
  have hafter := v.component?_modifyComponent id (fun x => x.load stored) c
  refine ⟨fun hne => ?_, fun heq x hx => ?_⟩
  · rw [hafter, if_neg (Ne.symm hne)]
  · rw [if_pos heq.symm, hx] at hafter
    exact ⟨x.load stored, hafter, Nat.lt_succ_self _⟩

end Vault

namespace Workspace

open Vault (Hands)
open SessionTree (Affected)

/-! ## 1. Who is registered where -/

/-- A scope has a component under a name. -/
def Registers (w : Workspace β δ) (id : ScopeId) (n : String) (c : ComponentId) : Prop :=
  ∃ s e, w.scope? id = some s ∧ get? s.components n = some e ∧ e.component = c

/-- Whether a scope registers a component can be looked up. -/
theorem registers_of_entry {w : Workspace β δ} {id : ScopeId} {n : String} {c : ComponentId}
    (h : ((w.scope? id).bind fun s => get? s.components n).map Entry.component = some c) :
    w.Registers id n c := by
  obtain ⟨e, hentry, rfl⟩ := Option.map_eq_some_iff.mp h
  obtain ⟨s, hs, he⟩ := Option.bind_eq_some_iff.mp hentry
  exact ⟨s, e, hs, he, rfl⟩

/-- Path variables do not matter for what is registered. -/
theorem registers_of_outline {w w' : Workspace β δ} (h : w'.outline = w.outline) (id : ScopeId)
    (n : String) (c : ComponentId) : w'.Registers id n c ↔ w.Registers id n c := by
  have hcomponents := components_of_outline h id
  unfold Registers
  cases hs' : w'.scope? id with
  | none =>
    rw [hs', Option.map_none] at hcomponents
    rw [Option.map_eq_none_iff.mp hcomponents.symm]
  | some s' =>
    rw [hs', Option.map_some] at hcomponents
    obtain ⟨s, hs, hsame⟩ := Option.map_eq_some_iff.mp hcomponents.symm
    simp only [hs, Option.some.injEq, exists_and_left, exists_eq_left', hsame]

/-! ## 2. What reinitialising touches -/

section Reinitialising

variable [Backing β] [Digest δ] {c : ComponentId}

omit [Backing β] [Digest δ] in
theorem loadComponent_hands (w : Workspace β δ) (id : ScopeId) (name : String) (entry : Entry)
    (c : ComponentId) :
    Hands w.vault (w.loadComponent id name entry).vault c (entry.component = c) := by
  unfold loadComponent
  split
  · exact Vault.hands_load _ _ _ _
  · exact Vault.hands_load _ _ _ _

omit [Backing β] [Digest δ] in
theorem foldl_loadComponent_hands (id : ScopeId) (c : ComponentId) (ts : List (String × Entry))
    (w : Workspace β δ) :
    Hands w.vault (ts.foldl (fun w t => w.loadComponent id t.1 t.2) w).vault c
      (∃ t ∈ ts, t.2.component = c) := by
  induction ts generalizing w with
  | nil =>
    refine Hands.of_eq rfl ?_
    rintro ⟨t, ht, _⟩
    exact List.not_mem_nil ht
  | cons t ts ih =>
    refine ((loadComponent_hands w id t.1 t.2 c).trans (ih _)).congr ?_
    simp only [List.mem_cons, or_and_right, exists_or, exists_eq_left]

omit [Backing β] [Digest δ] in
/-- The named components of a scope are those that it has registered. -/
theorem exists_target_iff (w : Workspace β δ) (id : ScopeId) (names : List String) :
    (∃ t ∈ (w.scope? id).elim [] (fun s => targets s names), t.2.component = c) ↔
      ∃ n ∈ names, w.Registers id n c := by
  unfold Registers
  cases w.scope? id with
  | none => simp
  | some s =>
    simp only [Option.elim_some, targets, List.mem_filterMap, Option.map_eq_some_iff]
    constructor
    · rintro ⟨_, ⟨n, hn, e, he, rfl⟩, hc⟩
      exact ⟨n, hn, s, e, rfl, he, hc⟩
    · rintro ⟨n, hn, _, e, hs, he, hc⟩
      rw [← Option.some.inj hs] at he
      exact ⟨(n, e), ⟨n, hn, e, he, rfl⟩, hc⟩

/-- Reading units again leaves components alone, whether all of them can be read or
not. -/
theorem components_loadStorages (v : Vault β δ) (reload : Bool) (ids : List StorageId) :
    (if reload then loadStorages [] ids v else (.ok (), v)).2.components = v.components := by
  split
  · exact (loadStorages_spec ids (fun k hk => absurd hk List.not_mem_nil)
      fun k hk => absurd hk List.not_mem_nil).2.1
  · rfl

/-- **Reinitialising one scope** touches what it has under the names. -/
theorem reinitOwn_hands {w : Workspace β δ} {id : ScopeId} {names : List String} {reload : Bool}
    (c : ComponentId) (hok : (w.reinitOwn id names reload).1 = .ok ()) :
    Hands w.vault (w.reinitOwn id names reload).2.vault c (∃ n ∈ names, w.Registers id n c) := by
  have hcomponents := components_loadStorages w.vault reload
    (((w.scope? id).elim [] fun s => targets s names).map fun t => t.2.storage)
  unfold reinitOwn at hok ⊢
  simp only [] at hok ⊢
  split at hok
  · cases hok
  · have hloaded := foldl_loadComponent_hands id c
      ((w.scope? id).elim [] fun s => targets s names)
      { w with vault := (if reload then loadStorages []
          (((w.scope? id).elim [] fun s => targets s names).map fun t => t.2.storage) w.vault
        else (.ok (), w.vault)).2 }
    refine ((Hands.of_eq (p := False) hcomponents not_false).trans hloaded).congr ?_
    rw [false_or, exists_target_iff]

mutual

theorem reinitTree_hands (names : List String) (reload : Bool) (c : ComponentId) :
    ∀ (t : ScopeTree) (w : Workspace β δ), (reinitTree names reload t w).1 = .ok () →
      Hands w.vault (reinitTree names reload t w).2.vault c
        (∃ id ∈ t.scopes, ∃ n ∈ names, w.Registers id n c)
  | .node id children, w, hok => by
    have heffect := reinitOwn_effect w id names reload
    rw [reinitTree] at hok ⊢
    split at hok
    · cases hok
    · rename_i w' hown
      have hok' : (w.reinitOwn id names reload).1 = .ok () := congrArg Prod.fst hown
      have hfirst := reinitOwn_hands c hok'
      rw [hown] at heffect hfirst
      refine (hfirst.trans (reinitAll_hands names reload c children w' hok)).congr ?_
      -- The scopes below are as they were before their parent had its turn.
      simp only [registers_of_outline heffect.outline, ScopeTree.scopes, List.mem_cons,
        or_and_right, exists_or, exists_eq_left]

theorem reinitAll_hands (names : List String) (reload : Bool) (c : ComponentId) :
    ∀ (ts : List ScopeTree) (w : Workspace β δ), (reinitAll names reload ts w).1 = .ok () →
      Hands w.vault (reinitAll names reload ts w).2.vault c
        (∃ id ∈ ScopeTree.scopesOfAll ts, ∃ n ∈ names, w.Registers id n c)
  | [], w, _ => by
    rw [reinitAll]
    refine Hands.of_eq rfl ?_
    rintro ⟨id, hid, _⟩
    exact List.not_mem_nil hid
  | t :: ts, w, hok => by
    have heffect := reinitTree_effect names reload t w
    rw [reinitAll] at hok ⊢
    split at hok
    · cases hok
    · rename_i w' ht
      have hfirst := reinitTree_hands names reload c t w (congrArg Prod.fst ht)
      rw [ht] at heffect hfirst
      refine (hfirst.trans (reinitAll_hands names reload c ts w' hok)).congr ?_
      simp only [registers_of_outline heffect.outline, ScopeTree.scopesOfAll, List.mem_append,
        or_and_right, exists_or]

end

/-- **Reinitialising a tree** touches what is registered in it under one of the
names. -/
theorem reinit_hands {w : Workspace β δ} {root : ScopeId} {names : List String} {reload : Bool}
    (c : ComponentId) (hok : (w.reinit root names reload).1 = .ok ()) :
    Hands w.vault (w.reinit root names reload).2.vault c
      (∃ id ∈ (w.tree root).scopes, ∃ n ∈ names, w.Registers id n c) := by
  refine (reinitTree_hands _ reload c (w.tree root) w hok).congr ?_
  simp only [Ascending.mem_ofList]

end Reinitialising

/-! ## 3. What an analysis names -/

section Naming

variable [Backing β] [DecidableEq δ] [Digest δ] {w : Workspace β δ} {id root : ScopeId}
  {changes : ChangeSet} {names : List String} {n : String}

omit [Backing β] [DecidableEq δ] [Digest δ] in
/-- The units that a session of a scope is opened with. -/
theorem mem_layout_iff {slot : Slot} :
    slot ∈ (w.openScope id).layout ↔
      ∃ s, w.scope? id = some s ∧ ∃ e ∈ s.storages, w.slotAt s e.2 = slot := by
  unfold openScope
  cases w.scope? id with
  | none => simp
  | some s =>
    simp only [layout_eq, List.mem_map, Option.some.injEq, exists_eq_left']

omit [Backing β] [DecidableEq δ] [Digest δ] in
theorem scope_openScope (w : Workspace β δ) (id : ScopeId) : (w.openScope id).scope = id := by
  unfold openScope
  split <;> rfl

omit [Backing β] [DecidableEq δ] [Digest δ] in
/-- The affected units of a session that is opened are those of the scopes of the
tree. -/
theorem affected_startSave_iff {slot : Slot} :
    Affected changes (w.startSave root).parts slot ↔
      ∃ id ∈ (w.tree root).scopes, slot ∈ (w.openScope id).layout ∧
        changes.affects slot.unit id = true := by
  rw [startSave, (openTree_spec w (w.tree root)).2]
  constructor
  · rintro ⟨part, hpart, hslot, haffects⟩
    obtain ⟨id, hid, rfl⟩ := List.mem_map.mp hpart
    rw [scope_openScope] at haffects
    exact ⟨id, (ScopeTree.mem_postorder _ id).mp hid, hslot, haffects⟩
  · rintro ⟨id, hid, hslot, haffects⟩
    refine ⟨_, List.mem_map_of_mem ((ScopeTree.mem_postorder _ id).mpr hid), hslot, ?_⟩
    rw [scope_openScope]
    exact haffects

section Slots

variable {s : Scope} {l : Location} {u : Path} {k : StorageId}

omit [Backing β] [DecidableEq δ] [Digest δ] in
/-- The components of a unit of an opened session are those in its storage. -/
theorem mem_slotAt_iff (h : w.Kept) (hs : w.scope? id = some s) :
    n ∈ (w.slotAt s (u, k)).components.map Prod.fst ↔
      ∃ e, get? s.components n = some e ∧ e.storage = k := by
  simp only [slotAt, List.map_map, List.mem_map, List.mem_filter, decide_eq_true_eq]
  constructor
  · rintro ⟨⟨m, e⟩, ⟨hmem, hek⟩, rfl⟩
    exact ⟨e, (h.scope hs).components.get?_of_mem hmem, hek⟩
  · rintro ⟨e, he, hek⟩
    exact ⟨(n, e), ⟨Bindings.mem_of_get? he, hek⟩, rfl⟩

omit [Backing β] [DecidableEq δ] [Digest δ] in
/-- A component that is stored in a unit of an opened session is kept there. -/
theorem unitOf?_slotAt (h : w.Kept) (hs : w.scope? id = some s) {e : Entry}
    (he : get? s.components n = some e) (hk : get? s.storages l = some (u, e.storage)) :
    w.unitOf? id n = some (w.slotAt s (u, e.storage)).unit := by
  obtain ⟨st, hst, _⟩ := (h.scope hs).exists_storage hk
  rw [unitOf?, hs, Option.bind_some, he, Option.bind_some, slotAt, hst]
  rfl

end Slots

end Naming

/-! ## 5. Two scopes and an edit that is not saved -/

end Workspace

end ScopedState
