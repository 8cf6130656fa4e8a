/-
`Proofs/Workspace/Layout.lean` -- the units of a scope hold each of its components once.

A session captures the units of its scope, and finds the components of a unit by comparing
the numbers of storages: a component belongs to the unit whose storage its entry has. Where
a scope has got a storage from does not show in the number. It may be the scope's own, or
one that the pool has because another scope maps the unit, perhaps under another text, or
did until it went out of use. A component whose storage is not the one that its scope has
for the unit would be in no slot at all.

That does not happen, since an entry gets the storage that its scope maps the unit to at
that time (`Kept`), and what is mapped stays mapped. The other way round a unit could be
mapped and have no component. But a unit is only mapped when a component is entered there
(`Placed`), and an entry stays as its name is taken (`Filled`). All this is about one scope:
nothing is asked of the pools, of the other scopes, or of what the store refuses.
-/
import ScopedState.Proofs.Workspace.Events
import ScopedState.Proofs.Workspace.Exact
import ScopedState.Proofs.Workspace.ReadOnly
set_option autoImplicit false

namespace ScopedState

open Bindings (Sorted get? keys)

variable {β δ : Type}

/-! ## 1. Groups -/

/-- **Elements grouped by a key**, for some different keys, are those with one of these keys,
each as often as before. -/
theorem groups_perm {α κ : Type} [DecidableEq κ] (f : α → κ) (xs : List α) {ks : List κ}
    (hnodup : ks.Nodup) :
    (ks.flatMap fun k => xs.filter fun x => f x = k).Perm (xs.filter fun x => f x ∈ ks) := by
  induction ks with
  | nil => simp
  | cons k ks ih =>
    obtain ⟨hk, hks⟩ := List.nodup_cons.mp hnodup
    -- Those with one of the keys are those with the first and those with another one.
    have hsplit := List.filter_append_perm (fun x => decide (f x = k))
      (xs.filter fun x => f x ∈ k :: ks)
    rw [List.filter_filter, List.filter_filter] at hsplit
    have hfirst : (xs.filter fun x => decide (f x = k) && decide (f x ∈ k :: ks))
        = xs.filter fun x => f x = k := by
      refine List.filter_congr fun x _ => ?_
      by_cases hx : f x = k <;> simp [hx]
    have hothers : (xs.filter fun x => !decide (f x = k) && decide (f x ∈ k :: ks))
        = xs.filter fun x => f x ∈ ks := by
      refine List.filter_congr fun x _ => ?_
      by_cases hx : f x = k <;> simp [hx, hk]
    rw [hfirst, hothers] at hsplit
    exact ((ih hks).append_left _).trans hsplit

namespace Workspace

variable {w : Workspace β δ}

/-! ## 2. Units with components -/

/-- A unit that is mapped has a component. -/
def Filled (w : Workspace β δ) : Prop :=
  ∀ id l k, w.mapped? id l = some k → ∃ name e, w.entryOf? id name = some e ∧ e.storage = k

section Happening

variable [Backing β] [DecidableEq δ] [Digest δ]

/-- **Every event** leaves a component in each unit. -/
theorem Filled.happen (h : w.Filled) (hkept : w.Kept) (e : Event β) : (w.happen e).Filled := by
  rcases happen_tables hkept e with
    ⟨hentry, hmapped⟩ | ⟨id, p, name, entry, unit, template, hplaced⟩
  · unfold Filled
    rw [hentry, hmapped]
    exact h
  · intro j l k hk
    rw [hplaced.mapped] at hk
    split at hk
    · rename_i hjl
      refine ⟨name, entry, ?_, Option.some.inj hk⟩
      rw [hplaced.entry, if_pos ⟨hjl.1, rfl⟩]
    · obtain ⟨n, e, he, hek⟩ := h j l k hk
      refine ⟨n, e, ?_, hek⟩
      -- The name that was entered was free, so this is another one.
      rw [hplaced.entry, if_neg, he]
      rintro ⟨rfl, rfl⟩
      rw [hplaced.free] at he
      cases he

theorem filled_happenAll (backing : β) (events : List (Event β)) :
    ((start backing : Workspace β δ).happenAll events).Filled :=
  happenAll_of_kept Filled (fun id l k hk => by cases hk)
    (fun _ e hkept h => h.happen hkept e) events

end Happening

/-! ## 3. The units of a session -/

section Slots

variable {id : ScopeId} {s : Scope} {slot : Slot} {name : String}

/-- A slot of a scope, with the location and the storage it stands for. -/
theorem mem_layout (hslot : slot ∈ w.layout s) (h : s.Kept w.vault) :
    ∃ l u k, get? s.storages l = some (u, k) ∧ w.slotAt s (u, k) = slot := by
  rw [layout_eq] at hslot
  obtain ⟨⟨l, u, k⟩, hmem, hslot⟩ := List.mem_map.mp hslot
  exact ⟨l, u, k, h.storages.get?_of_mem hmem, hslot⟩

/-- **The units of a scope are different**, and in order. -/
theorem layout_ascending (h : w.Kept) (hs : w.scope? id = some s) :
    (w.layout s).Pairwise fun x y => x.unit.location < y.unit.location := by
  have hkept := h.scope hs
  have hlocation : ∀ e ∈ s.storages, (w.slotAt s e.2).unit.location = e.1 := fun e he =>
    slotAt_location h hs (hkept.storages.get?_of_mem he)
  rw [layout_eq, List.pairwise_map]
  refine hkept.storages.imp_of_mem fun {e e'} he he' hlt => ?_
  rw [hlocation e he, hlocation e' he']
  exact hlt

/-- **A component is in the slot of its unit**, and in no other one. -/
theorem mem_components_iff (h : w.Kept) (hs : w.scope? id = some s) (hslot : slot ∈ w.layout s) :
    name ∈ slot.components.map Prod.fst ↔ w.unitOf? id name = some slot.unit := by
  have hkept := h.scope hs
  obtain ⟨l, u, k, hk, rfl⟩ := mem_layout hslot hkept
  rw [mem_slotAt_iff h hs]
  constructor
  · rintro ⟨e, he, rfl⟩
    exact unitOf?_slotAt h hs he hk
  · intro hunit
    rw [unitOf?, hs, Option.bind_some] at hunit
    obtain ⟨e, he, hunit⟩ := Option.bind_eq_some_iff.mp hunit
    refine ⟨e, he, ?_⟩
    -- The storage of the entry is mapped at the location of its unit, which is that of the slot.
    obtain ⟨l', u', hk'⟩ := hkept.mapped name e he
    have hl' := (hkept.located l' u' _ hk').symm.trans (Vault.location?_of_unit? hunit)
    rw [slotAt_location h hs hk] at hl'
    rw [Option.some.inj hl', hk] at hk'
    exact (Prod.mk.inj (Option.some.inj hk')).2.symm

/-- **Each component of a scope is in one slot**, once. -/
theorem layout_perm (h : s.Kept w.vault) :
    ((w.layout s).flatMap Slot.components).Perm
      (s.components.map fun c => (c.1, c.2.component)) := by
  -- The storages of a scope are different, as each is about its own location.
  have hnodup : (s.storages.map fun e => e.2.2).Nodup := by
    refine List.pairwise_map.mpr (h.storages.imp_of_mem fun {e e'} he he' hlt heq => ?_)
    have hl := h.located _ _ _ (h.storages.get?_of_mem he)
    have hl' := h.located _ _ _ (h.storages.get?_of_mem he')
    rw [heq] at hl
    exact OrderedKey.ne_of_lt hlt (Option.some.inj (hl.symm.trans hl'))
  have hall : ∀ c ∈ s.components, decide (c.2.storage ∈ s.storages.map fun e => e.2.2) = true := by
    intro c hc
    obtain ⟨l, u, hk⟩ := h.mapped c.1 c.2 (h.components.get?_of_mem hc)
    exact decide_eq_true (List.mem_map.mpr ⟨_, Bindings.mem_of_get? hk, rfl⟩)
  have hgroups := groups_perm (fun c : String × Entry => c.2.storage) s.components hnodup
  rw [List.filter_eq_self.mpr hall] at hgroups
  have hlayout : (w.layout s).flatMap Slot.components
      = ((s.storages.map fun e => e.2.2).flatMap fun k =>
          s.components.filter fun c => c.2.storage = k).map fun c => (c.1, c.2.component) := by
    rw [layout_eq, List.flatMap_map, List.flatMap_map, List.map_flatMap]
    rfl
  rw [hlayout]
  exact hgroups.map _

/-- **A slot has a component.** -/
theorem components_ne_nil (hfilled : w.Filled) (h : w.Kept) (hs : w.scope? id = some s)
    (hslot : slot ∈ w.layout s) : slot.components ≠ [] := by
  obtain ⟨l, u, k, hk, rfl⟩ := mem_layout hslot (h.scope hs)
  have hmapped : w.mapped? id l = some k := by
    rw [mapped?, hs, Option.bind_some, hk]
    rfl
  obtain ⟨name, e, he, hek⟩ := hfilled id l k hmapped
  rw [entryOf?, hs, Option.bind_some] at he
  have hname := (mem_slotAt_iff h hs (u := u)).mpr ⟨e, he, hek⟩
  intro hnil
  rw [hnil] at hname
  cases hname

end Slots

/-! ## 4. The files of a session -/

section Files

variable {id : ScopeId} {s : Scope} {u : Path}

theorem layout_openScope (hs : w.scope? id = some s) : (w.openScope id).layout = w.layout s := by
  unfold openScope
  rw [hs]

/-- **The units that a session is opened with** are those that its scope keeps components in. -/
theorem exists_slot_iff (hfilled : w.Filled) (h : w.Kept) :
    (∃ slot ∈ (w.openScope id).layout, slot.unit = u) ↔ ∃ name, w.unitOf? id name = some u := by
  constructor
  · rintro ⟨slot, hslot, rfl⟩
    obtain ⟨s, hs, _⟩ := mem_layout_iff.mp hslot
    rw [layout_openScope hs] at hslot
    obtain ⟨c, hc⟩ := List.exists_mem_of_ne_nil _ (components_ne_nil hfilled h hs hslot)
    exact ⟨c.1, (mem_components_iff h hs hslot).mp (List.mem_map_of_mem hc)⟩
  · rintro ⟨name, hunit⟩
    have hunit' := hunit
    rw [unitOf?, Option.bind_eq_some_iff] at hunit'
    obtain ⟨e, he, _⟩ := hunit'
    obtain ⟨s, hs, he⟩ := Option.bind_eq_some_iff.mp he
    obtain ⟨l, u', hk⟩ := (h.scope hs).mapped name e he
    refine ⟨_, mem_layout_iff.mpr ⟨s, hs, _, Bindings.mem_of_get? hk, rfl⟩, ?_⟩
    exact Option.some.inj ((unitOf?_slotAt h hs he hk).symm.trans hunit)

/-- **The files of a scope's session**, each once. -/
theorem files_openScope (hfilled : w.Filled) (h : w.Kept) (id : ScopeId) :
    (w.openScope id).files.toList.Nodup ∧
      ∀ u, u ∈ (w.openScope id).files.toList ↔ ∃ name, w.unitOf? id name = some u := by
  have hapart : ∀ p ∈ (w.openScope id).layout.map Slot.unit,
      ∀ q ∈ (w.openScope id).layout.map Slot.unit, p.location = q.location → p = q := by
    intro p hp q hq hpq
    obtain ⟨x, hx, rfl⟩ := List.mem_map.mp hp
    obtain ⟨y, hy, rfl⟩ := List.mem_map.mp hq
    obtain ⟨s, hs, _⟩ := mem_layout_iff.mp hx
    rw [layout_openScope hs] at hx hy
    obtain ⟨l, a, k, hk, rfl⟩ := mem_layout hx (h.scope hs)
    obtain ⟨l', a', k', hk', rfl⟩ := mem_layout hy (h.scope hs)
    rw [slotAt_location h hs hk, slotAt_location h hs hk'] at hpq
    rw [hpq, hk'] at hk
    rw [Option.some.inj hk]
  obtain ⟨hnodup, hmem⟩ := Paths.ofList_spec hapart
  refine ⟨hnodup, fun u => (hmem u).trans ?_⟩
  rw [List.mem_map]
  exact exists_slot_iff hfilled h

theorem scope_tree (w : Workspace β δ) (id : ScopeId) : (w.tree id).scope = id := by
  unfold tree
  cases w.scopes.length <;> rfl

variable [Backing β] [DecidableEq δ] [Digest δ]

/-- Without those of the scopes below, the files of a session are those of the scope. -/
theorem files_openTree (w : Workspace β δ) (v : Vault β δ) (t : ScopeTree) :
    ((w.openTree t).files false v).1 = (w.openScope t.scope).files := by
  cases t with
  | node id children =>
    rw [openTree]
    rfl

theorem files_startSave (w : Workspace β δ) (id : ScopeId) (v : Vault β δ) :
    ((w.startSave id).files false v).1 = (w.openScope id).files := by
  rw [startSave, files_openTree, scope_tree]

/-- **The files of a tree's session** are where its scopes keep components. -/
theorem mem_files_startSave (hfilled : w.Filled) (h : w.Kept) (v : Vault β δ) (l : Location) :
    l ∈ keys ((w.startSave id).files true v).1 ↔
      ∃ j ∈ (w.tree id).scopes, ∃ name u, w.unitOf? j name = some u ∧ u.location = l := by
  have hslots : ∀ j, (∃ slot ∈ (w.openScope j).layout, slot.unit.location = l) ↔
      ∃ name u, w.unitOf? j name = some u ∧ u.location = l := by
    intro j
    constructor
    · rintro ⟨slot, hslot, hl⟩
      obtain ⟨name, hname⟩ := (exists_slot_iff hfilled h).mp ⟨slot, hslot, rfl⟩
      exact ⟨name, slot.unit, hname, hl⟩
    · rintro ⟨name, u, hname, hl⟩
      obtain ⟨slot, hslot, rfl⟩ := (exists_slot_iff hfilled h).mpr ⟨name, hname⟩
      exact ⟨slot, hslot, hl⟩
  rw [startSave, SessionTree.mem_keys_files (layered_openTree w (w.tree id)) v l,
    (openTree_spec w (w.tree id)).2]
  simp only [List.mem_map, exists_exists_and_eq_and, ScopeTree.mem_postorder, hslots]

/-- **The units of a scope hold each of its components once**, after any events, whether the
scope is still in use or not.

They are different units, each with some component. Taken together, their components are
those of the scope, none of them twice; and a component is in the one whose unit it is kept
in. So a session that is opened lists the units that components of the scope are kept in,
and, with those of the scopes below, the units of all scopes of the tree. -/
theorem layout_holds_each_component_once {backing : β} {events : List (Event β)}
    (hw : (start backing : Workspace β δ).happenAll events = w) (hs : w.scope? id = some s) :
    (w.layout s).Pairwise (fun x y => x.unit.location ≠ y.unit.location) ∧
      (∀ slot ∈ w.layout s, slot.components ≠ []) ∧
      ((w.layout s).flatMap Slot.components).Perm
        (s.components.map fun c => (c.1, c.2.component)) ∧
      (∀ slot ∈ w.layout s, ∀ name,
        name ∈ slot.components.map Prod.fst ↔ w.unitOf? id name = some slot.unit) ∧
      ∀ v : Vault β δ,
        ((w.startSave id).files false v).1.toList.Nodup ∧
        (∀ u, u ∈ ((w.startSave id).files false v).1.toList ↔
          ∃ name, w.unitOf? id name = some u) ∧
        ∀ l, l ∈ keys ((w.startSave id).files true v).1 ↔
          ∃ j ∈ (w.tree id).scopes, ∃ name u, w.unitOf? j name = some u ∧ u.location = l := by
  subst hw
  have hkept := (kept_start backing : (start backing : Workspace β δ).Kept).happenAll events
  have hfilled := filled_happenAll (δ := δ) backing events
  refine ⟨(layout_ascending hkept hs).imp OrderedKey.ne_of_lt,
    fun slot hslot => components_ne_nil hfilled hkept hs hslot, layout_perm (hkept.scope hs),
    fun slot hslot name => mem_components_iff hkept hs hslot, fun v => ?_⟩
  obtain ⟨hnodup, hmem⟩ := files_openScope hfilled hkept id
  rw [files_startSave]
  exact ⟨hnodup, hmem, mem_files_startSave hfilled hkept v⟩

end Files

/-- A scope beside two others that share the pool. One of them maps a unit and stays, the
other one has mapped a unit and is let go. The scope then maps both, each under other
texts; two of its registrations fail, one for its unit and one for its name. -/
def siblingEvents : List (Event Faulty) :=
  [.act (.disturb fun f => f.refuseReads ⟨"/p/broken.json"⟩ true),
    .act (.addScope "kept" none 0), .act (.addScope "gone" none 0),
    .act (.addScope "m" (some { table := MacroTable.forScope ⟨"/p"⟩ }) 0),
    .act (.register 0 0 "x" "/p/./u.json"), .act (.register 1 1 "y" "/p/v.json"),
    .act (.release 1),
    .act (.register 2 2 "a" "$SCOPE_DIR$/u.json"), .act (.register 2 3 "b" "/p//v.json"),
    .act (.register 2 4 "c" "/p/u.json/"),
    .act (.register 2 5 "d" "$SCOPE_DIR$/broken.json"), .act (.register 2 6 "a" "/p/w.json")]

/-- What that leads to. -/
def siblings : Workspace Faulty Bytes := (start {}).happenAll siblingEvents

/-- The scope has two units, one with two components and one with a single one. A session
of it lists one of them under the text of the other scope. -/
theorem sibling_layout :
    ∃ s, siblings.scope? 2 = some s ∧
      ((siblings.layout s).flatMap Slot.components).Perm [("a", 2), ("b", 3), ("c", 4)] ∧
      (siblings.layout s).map Slot.unit = [⟨"/p/./u.json"⟩, ⟨"/p//v.json"⟩] ∧
      ∀ u, u ∈ ((siblings.startSave 2).files false siblings.vault).1.toList ↔
        ∃ name, siblings.unitOf? 2 name = some u := by
  have hsome : (siblings.scope? 2).isSome = true := by decide +kernel
  obtain ⟨s, hs⟩ := Option.isSome_iff_exists.mp hsome
  obtain ⟨_, _, hperm, _, hfiles⟩ := layout_holds_each_component_once rfl hs
  have hcomponents : ((siblings.scope? 2).map fun s => s.components.map
      fun c => (c.1, c.2.component)) = some [("a", 2), ("b", 3), ("c", 4)] := by decide +kernel
  have hunits : ((siblings.scope? 2).map fun s => (siblings.layout s).map Slot.unit)
      = some [⟨"/p/./u.json"⟩, ⟨"/p//v.json"⟩] := by decide +kernel
  rw [hs, Option.map_some, Option.some.injEq] at hcomponents hunits
  rw [hcomponents] at hperm
  exact ⟨s, hs, hperm, hunits, (hfiles siblings.vault).2.1⟩

end Workspace

end ScopedState
