/-
`Proofs/Workspace/Reload.lean` -- a reload that fails.

A reload of one scope reads its storages again, one after the other, and only
then hands the components what is stored for them. If some storage cannot be
read, no component is touched. But the storages that were read before it keep
what was read: they remember the new content of their units, and an analysis
that comes later compares with that.

So a failed reload leaves everything as it was exactly when there was nothing
new in the storages read before the failing one
(`reinit_failed_unchanged_iff`). Where there was, the next analysis does not
see the change any more.
-/
import ScopedState.Backing.Memory
import ScopedState.Proofs.Vault
import ScopedState.Workspace
set_option autoImplicit false

namespace ScopedState

variable {β δ : Type} [Backing β] [Digest δ]

namespace Vault

/-- Whether a storage remembers its unit as it is on disk. -/
def UpToDate (v : Vault β δ) (id : StorageId) : Prop :=
  ∀ s, v.storage? id = some s → v.readSnapshot s.unit = .ok s.snapshot

/-- The storages at the front of a list that can be loaded. -/
def readable (v : Vault β δ) (ids : List StorageId) : List StorageId := ids.takeWhile v.loads

theorem readable_cons_of_loads {v : Vault β δ} {id : StorageId} (h : v.loads id = true)
    (ids : List StorageId) : v.readable (id :: ids) = id :: v.readable ids :=
  List.takeWhile_cons_of_pos h

theorem readable_cons_of_not_loads {v : Vault β δ} {id : StorageId} (h : ¬ v.loads id = true)
    (ids : List StorageId) : v.readable (id :: ids) = [] :=
  List.takeWhile_cons_of_neg h

theorem readable_after_load (v : Vault β δ) (id : StorageId) (ids : List StorageId) :
    (v.load id).2.readable ids = v.readable ids := by
  rw [readable, readable]
  congr 1
  funext k
  exact v.loads_after_load id k

/-- A storage that is up to date stays as it is when it is read again. -/
theorem reread_eq_self_iff {v : Vault β δ} {id : StorageId} (hloads : v.loads id = true) :
    (v.storage? id).map v.reread = v.storage? id ↔ v.UpToDate id := by
  rw [loads, load_outcome] at hloads
  unfold UpToDate
  cases hs : v.storage? id with
  | none =>
    refine ⟨fun _ s h => ?_, fun _ => rfl⟩
    cases h
  | some s =>
    rw [hs, Option.elim_some] at hloads
    rw [Option.map_some]
    cases hread : v.readSnapshot s.unit with
    | error e =>
      rw [hread] at hloads
      cases hloads
    | ok snapshot =>
      constructor
      · intro h t ht
        rw [← Option.some.inj ht, hread]
        have hsnapshot : (v.reread s).snapshot = s.snapshot := by rw [Option.some.inj h]
        rw [reread, hread] at hsnapshot
        exact congrArg Except.ok hsnapshot
      · intro h
        rw [reread, h s rfl]

end Vault

namespace Workspace

open Vault (UpToDate)

/-! ## 1. Loading storages one after the other -/

/-- A storage that has just been loaded can be loaded again, to the same
effect. -/
theorem fresh_after_load {v : Vault β δ} {id k : StorageId}
    (h : k = id ∨ (v.storage? k).map v.reread = v.storage? k) :
    ((v.load id).2.storage? k).map (v.load id).2.reread = (v.load id).2.storage? k := by
  have hreread : (v.load id).2.reread = v.reread :=
    funext fun s => Vault.reread_congr (v.load_backing id) s
  have htwice : v.reread ∘ v.reread = v.reread := funext fun s => v.reread_reread s
  rw [Vault.storage?_load, hreread]
  split
  · rw [Option.map_map, htwice]
  · rename_i hk
    exact h.resolve_left hk

/-- **One storage more to load**: it has been loaded before; or it cannot be
loaded, which ends the loading; or it is loaded, and the others after it. -/
theorem loadStorages_cons (done : List StorageId) (id : StorageId) (ids : List StorageId)
    (v : Vault β δ) :
    (id ∈ done ∧ loadStorages done (id :: ids) v = loadStorages done ids v) ∨
      (¬ v.loads id = true ∧ loadStorages done (id :: ids) v = ((v.load id).1, v)) ∨
      (v.loads id = true ∧
        loadStorages done (id :: ids) v = loadStorages (id :: done) ids (v.load id).2) := by
  rw [loadStorages]
  split
  · rename_i hmem
    exact Or.inl ⟨List.contains_iff_mem.mp hmem, rfl⟩
  · split
    · rename_i e v' he
      have hnot : ¬ v.loads id = true := by
        rw [Vault.loads, he]
        exact Bool.false_ne_true
      have hv' : v' = v := by rw [← Vault.load_of_not_loads hnot, he]
      exact Or.inr (Or.inl ⟨hnot, by rw [he, hv']⟩)
    · rename_i v' he
      have hloads : v.loads id = true := by
        rw [Vault.loads, he]
        rfl
      exact Or.inr (Or.inr ⟨hloads, by rw [he]⟩)

/-- Storages that were loaded before can be loaded, also after one more. -/
theorem loads_done {done : List StorageId} {v : Vault β δ} {id : StorageId}
    (hdone : ∀ k ∈ done, v.loads k = true) (hloads : v.loads id = true) :
    ∀ k ∈ id :: done, (v.load id).2.loads k = true := by
  intro k hk
  rw [Vault.loads_after_load]
  rcases List.mem_cons.mp hk with rfl | hk
  · exact hloads
  · exact hdone k hk

/-- **What loading some storages does.** Those before the first that cannot be
loaded are read again, and nothing else changes. `done` are storages that were
loaded before, so loading them again would change nothing. -/
theorem loadStorages_spec {done : List StorageId} (ids : List StorageId) {v : Vault β δ}
    (hdone : ∀ k ∈ done, v.loads k = true)
    (hfresh : ∀ k ∈ done, (v.storage? k).map v.reread = v.storage? k) :
    (loadStorages done ids v).2.backing = v.backing ∧
      (loadStorages done ids v).2.components = v.components ∧
      ∀ k, (loadStorages done ids v).2.storage? k
        = if k ∈ v.readable ids then (v.storage? k).map v.reread else v.storage? k := by
  induction ids generalizing done v with
  | nil => exact ⟨rfl, rfl, fun k => (if_neg List.not_mem_nil).symm⟩
  | cons id ids ih =>
    rcases loadStorages_cons done id ids v with ⟨hmem, hout⟩ | ⟨hnot, hout⟩ | ⟨hloads, hout⟩
    · -- The storage was loaded before: it is readable, and as it is on disk.
      obtain ⟨hbacking, hcomponents, hstorages⟩ := ih hdone hfresh
      rw [hout]
      refine ⟨hbacking, hcomponents, fun k => ?_⟩
      rw [hstorages k, Vault.readable_cons_of_loads (hdone id hmem)]
      by_cases hk : k = id
      · rw [hk, hfresh id hmem, ite_self, ite_self]
      · simp only [List.mem_cons, or_iff_right hk]
    · rw [hout, Vault.readable_cons_of_not_loads hnot]
      exact ⟨rfl, rfl, fun k => (if_neg List.not_mem_nil).symm⟩
    · have hfresh' : ∀ k ∈ id :: done,
          ((v.load id).2.storage? k).map (v.load id).2.reread = (v.load id).2.storage? k := by
        intro k hk
        exact fresh_after_load ((List.mem_cons.mp hk).imp_right (hfresh k))
      obtain ⟨hbacking, hcomponents, hstorages⟩ := ih (loads_done hdone hloads) hfresh'
      rw [hout]
      refine ⟨hbacking.trans (v.load_backing id), hcomponents.trans (v.load_components id),
        fun k => ?_⟩
      -- Reading the others finds the store as it was, so they are read as before.
      have hreread : (v.load id).2.reread = v.reread :=
        funext fun s => Vault.reread_congr (v.load_backing id) s
      have htwice : v.reread ∘ v.reread = v.reread := funext fun s => v.reread_reread s
      rw [hstorages k, Vault.readable_after_load, Vault.readable_cons_of_loads hloads,
        Vault.storage?_load, hreread]
      by_cases hk : k = id
      · simp only [hk, List.mem_cons_self, if_true, Option.map_map, htwice, ite_self]
      · simp only [List.mem_cons, or_iff_right hk, if_neg hk]

/-- **Loading ends at the first storage that cannot be loaded**, with its
failure. -/
theorem loadStorages_error {done ids : List StorageId} {v : Vault β δ} {e : Failure}
    (hdone : ∀ k ∈ done, v.loads k = true) (h : (loadStorages done ids v).1 = .error e) :
    ∃ k rest, ids = v.readable ids ++ k :: rest ∧ (v.load k).1 = .error e := by
  induction ids generalizing done v with
  | nil => cases h
  | cons id ids ih =>
    rcases loadStorages_cons done id ids v with ⟨hmem, hout⟩ | ⟨hnot, hout⟩ | ⟨hloads, hout⟩
    · rw [hout] at h
      obtain ⟨k, rest, hids, hk⟩ := ih hdone h
      refine ⟨k, rest, ?_, hk⟩
      rw [Vault.readable_cons_of_loads (hdone id hmem), List.cons_append, ← hids]
    · rw [hout] at h
      refine ⟨id, ids, ?_, h⟩
      rw [Vault.readable_cons_of_not_loads hnot, List.nil_append]
    · rw [hout] at h
      obtain ⟨k, rest, hids, hk⟩ := ih (loads_done hdone hloads) h
      rw [Vault.readable_after_load] at hids
      rw [Vault.load_outcome_after_load] at hk
      refine ⟨k, rest, ?_, hk⟩
      rw [Vault.readable_cons_of_loads hloads, List.cons_append, ← hids]

/-! ## 2. Reloading one scope -/

/-- The storages that a reload of a scope reads, in the order in which it reads
them. -/
def reloadOrder (w : Workspace β δ) (id : ScopeId) (names : List String) : List StorageId :=
  ((w.scope? id).elim [] fun s => targets s (Ascending.ofList names)).map fun t => t.2.storage

/-- Reloading a scope that none are below. -/
theorem reinit_leaf {w : Workspace β δ} {id : ScopeId} (hleaf : w.children id = [])
    (names : List String) (reload : Bool) :
    w.reinit id names reload = w.reinitOwn id (Ascending.ofList names) reload := by
  -- A scope without children is a tree of one scope.
  have htree : w.tree id = .node id [] := by
    unfold tree
    cases w.scopes.length with
    | zero => rfl
    | succ n => rw [treeWithin, hleaf, List.map_nil]
  rw [reinit, htree, reinitTree]
  split
  · rename_i e w' h
    exact h.symm
  · rename_i w' h
    rw [reinitAll, h]

/-- A reload of one scope that fails has failed while loading storages. -/
theorem reinitOwn_error {w : Workspace β δ} {id : ScopeId} {names : List String} {e : Failure}
    (h : (w.reinitOwn id (Ascending.ofList names) true).1 = .error e) :
    (loadStorages [] (w.reloadOrder id names) w.vault).1 = .error e ∧
      (w.reinitOwn id (Ascending.ofList names) true).2
        = { w with vault := (loadStorages [] (w.reloadOrder id names) w.vault).2 } := by
  unfold reinitOwn at h ⊢
  simp only [if_true] at h ⊢
  unfold reloadOrder
  split at h
  · rename_i e' he
    exact ⟨he.trans h, rfl⟩
  · cases h

/-- **A reload that fails, and what it leaves behind.** It ends at the first
storage that cannot be read, and tells its failure. No component is touched,
nor the store, nor any scope or session; the storages before the failing one
remember what is on disk now, so that no difference shows in them any more, and
the others what they remembered. So nothing at all has changed exactly when
those storages were up to date. -/
theorem reinit_failed_unchanged_iff [DecidableEq δ] {w : Workspace β δ} {id : ScopeId}
    {names : List String} {e : Failure} (hleaf : w.children id = [])
    (hfail : (w.reinit id names true).1 = .error e) :
    (∃ k rest, w.reloadOrder id names = w.vault.readable (w.reloadOrder id names) ++ k :: rest ∧
        (w.vault.load k).1 = .error e) ∧
      (w.reinit id names true).2 = { w with vault := (w.reinit id names true).2.vault } ∧
      (w.reinit id names true).2.vault.components = w.vault.components ∧
      (w.reinit id names true).2.vault.backing = w.vault.backing ∧
      (∀ k, (w.reinit id names true).2.vault.storage? k
        = if k ∈ w.vault.readable (w.reloadOrder id names)
          then (w.vault.storage? k).map w.vault.reread else w.vault.storage? k) ∧
      (∀ k ∈ w.vault.readable (w.reloadOrder id names), ∀ known,
        (w.reinit id names true).2.vault.changed k known = .ok []) ∧
      ((w.reinit id names true).2 = w ↔
        ∀ k ∈ w.vault.readable (w.reloadOrder id names), UpToDate w.vault k) := by
  rw [reinit_leaf hleaf] at hfail ⊢
  obtain ⟨hload, hafter⟩ := reinitOwn_error hfail
  have hdone : ∀ k ∈ ([] : List StorageId), w.vault.loads k = true :=
    fun k hk => absurd hk List.not_mem_nil
  obtain ⟨hbacking, hcomponents, hstorages⟩ :=
    loadStorages_spec (w.reloadOrder id names) hdone fun k hk => absurd hk List.not_mem_nil
  -- The storages that were read again are those in front of the failing one.
  have hreadable : ∀ k ∈ w.vault.readable (w.reloadOrder id names), w.vault.loads k = true :=
    fun k hk => List.all_eq_true.mp List.all_takeWhile k hk
  rw [hafter]
  refine ⟨loadStorages_error hdone hload, rfl, hcomponents, hbacking,
    hstorages, ?_, ?_, ?_⟩
  · intro k hk known
    have hstorage := hstorages k
    rw [if_pos hk] at hstorage
    exact Vault.changed_of_reread hbacking (hreadable k hk) hstorage known
  · intro h k hk
    rw [← Vault.reread_eq_self_iff (hreadable k hk)]
    have hvault : (loadStorages [] (w.reloadOrder id names) w.vault).2 = w.vault :=
      congrArg Workspace.vault h
    have hstorage := hstorages k
    rw [hvault, if_pos hk] at hstorage
    exact hstorage.symm
  · intro h
    have hvault : (loadStorages [] (w.reloadOrder id names) w.vault).2 = w.vault := by
      refine Vault.ext_storages hbacking hcomponents fun k => ?_
      rw [hstorages k]
      split
      · rename_i hk
        exact (Vault.reread_eq_self_iff (hreadable k hk)).mpr (h k hk)
      · rfl
    rw [hvault]

/-! ## 3. An edit that a failed reload hides -/

/-- A scope with one component in each of two units. -/
def twoUnits : Workspace Memory Bytes :=
  let memory : Memory :=
    { files := [(Path.location ⟨"/a.json"⟩, Utf8.ofString "\x7b\"a\": 1\x7d"),
        (Path.location ⟨"/b.json"⟩, Utf8.ofString "\x7b\"b\": 1\x7d")] }
  let start : Workspace Memory Bytes :=
    { vault := { backing := memory, components := [{ name := "a" }, { name := "b" }] }
      scopes := [{ name := "root", pool := 0 }]
      pools := [[]], held := [0], live := [0] }
  ((start.addComponent 0 0 "a" "/a.json").2.addComponent 0 1 "b" "/b.json").2

/-- The scope after somebody else has given the first unit a new value and
spoilt the second one. -/
def twoUnitsEdited : Workspace Memory Bytes :=
  let w := twoUnits
  let first := w.vault.backing.putExternal ⟨"/a.json"⟩ (Utf8.ofString "\x7b\"a\": 2\x7d")
  let memory := first.putExternal ⟨"/b.json"⟩ (Utf8.ofString "\x7b")
  { w with vault := { w.vault with backing := memory } }

/-- The reload of both units fails, and leaves everything as it was only if the
first one was up to date. -/
theorem reinit_two_units_failed :
    ∃ e, twoUnitsEdited.children 0 = [] ∧
      (twoUnitsEdited.reinit 0 ["a", "b"] true).1 = .error e ∧
      ((twoUnitsEdited.reinit 0 ["a", "b"] true).2 = twoUnitsEdited ↔
        ∀ k ∈ twoUnitsEdited.vault.readable (twoUnitsEdited.reloadOrder 0 ["a", "b"]),
          UpToDate twoUnitsEdited.vault k) := by
  have hleaf : twoUnitsEdited.children 0 = [] := by decide +kernel
  have hfails : (twoUnitsEdited.reinit 0 ["a", "b"] true).1.isOk = false := by decide +kernel
  cases hfail : (twoUnitsEdited.reinit 0 ["a", "b"] true).1 with
  | ok u =>
    rw [hfail] at hfails
    cases hfails
  | error e =>
    exact ⟨e, hleaf, rfl, (reinit_failed_unchanged_iff hleaf hfail).2.2.2.2.2.2⟩

/-- What a new session finds changed in the first unit. -/
def changedInFirst (w : Workspace Memory Bytes) : ExternalChanges :=
  ((w.startSave 0).analyze (ChangeSet.ofList [⟨⟨"/a.json"⟩, none⟩]) w.vault).1

/-- **A failed reload hides an edit.** The second unit cannot be read, so the
reload fails; and the edit of the first one, which was seen before, is not seen
after. -/
theorem failed_reload_hides_edit :
    changedInFirst twoUnitsEdited = .reloadable ["a"] ∧
      (twoUnitsEdited.reinit 0 ["a", "b"] true).1.isOk = false ∧
      changedInFirst (twoUnitsEdited.reinit 0 ["a", "b"] true).2 = .reloadable [] := by
  decide +kernel

end Workspace

end ScopedState
