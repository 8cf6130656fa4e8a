/-
`Proofs/Workspace/Gate.lean` -- a reload that every scope has to allow.

Three recursions go over a tree: an analysis gathers names from all of its scopes, the
gate asks all of them whether they take a reload of these names, and a reload hands the
named components of all of them what is stored. A name that was found in one scope is
asked for, and reloaded, in every other one.

What makes the gate sound is that it asks for no less than the reload touches, and asks
everybody first. So it does not matter how far the reload gets: a component that takes
no reload was never among those that it was about. And before the gate nothing happens,
because an analysis only looks.
-/
import ScopedState.Command
import ScopedState.Proofs.Workspace.Touched
set_option autoImplicit false

namespace ScopedState

open Bindings (get?)

variable {β δ : Type}

namespace Workspace

/-! ## 1. What a reload leaves alone -/

section Reinitialising

variable [Backing β] [Digest δ] {c : ComponentId}

/-- **A reload of one scope** leaves alone what the scope does not have under the names,
whether it goes well or not. -/
theorem reinitOwn_alone {w : Workspace β δ} {id : ScopeId} {names : List String}
    (h : ∀ n ∈ names, ¬ w.Registers id n c) (reload : Bool) :
    (w.reinitOwn id names reload).2.vault.component? c = w.vault.component? c := by
  cases hout : (w.reinitOwn id names reload).1 with
  | ok u =>
    refine (reinitOwn_hands c hout).alone ?_
    rintro ⟨n, hn, hregisters⟩
    exact h n hn hregisters
  | error e =>
    -- It failed while it was still reading.
    have hcomponents := components_loadStorages w.vault reload
      (((w.scope? id).elim [] fun s => targets s names).map fun t => t.2.storage)
    unfold reinitOwn at hout ⊢
    simp only [] at hout ⊢
    split at hout
    · rw [Vault.component?, Vault.component?, hcomponents]
    · cases hout

mutual

/-- A reload of a tree leaves alone what no scope of the tree has under the names. -/
theorem reinitTree_alone (names : List String) (reload : Bool) (c : ComponentId) :
    ∀ (t : ScopeTree) (w : Workspace β δ),
      (∀ id ∈ t.scopes, ∀ n ∈ names, ¬ w.Registers id n c) →
        (reinitTree names reload t w).2.vault.component? c = w.vault.component? c
  | .node id children, w, h => by
    have heffect := reinitOwn_effect w id names reload
    have hown := reinitOwn_alone (h id List.mem_cons_self) reload
    rw [reinitTree]
    split
    · rename_i e w' hout
      rw [hout] at hown
      exact hown
    · rename_i w' hout
      rw [hout] at heffect hown
      refine (reinitAll_alone names reload c children w' fun id' hid n hn hregisters => ?_).trans
        hown
      exact h id' (List.mem_cons_of_mem id hid) n hn
        ((registers_of_outline heffect.outline id' n c).mp hregisters)

theorem reinitAll_alone (names : List String) (reload : Bool) (c : ComponentId) :
    ∀ (ts : List ScopeTree) (w : Workspace β δ),
      (∀ id ∈ ScopeTree.scopesOfAll ts, ∀ n ∈ names, ¬ w.Registers id n c) →
        (reinitAll names reload ts w).2.vault.component? c = w.vault.component? c
  | [], _, _ => by rw [reinitAll]
  | t :: ts, w, h => by
    have heffect := reinitTree_effect names reload t w
    have hfirst := reinitTree_alone names reload c t w fun id hid =>
      h id (List.mem_append_left _ hid)
    rw [reinitAll]
    split
    · rename_i e w' hout
      rw [hout] at hfirst
      exact hfirst
    · rename_i w' hout
      rw [hout] at heffect hfirst
      refine (reinitAll_alone names reload c ts w' fun id hid n hn hregisters => ?_).trans hfirst
      exact h id (List.mem_append_right _ hid) n hn
        ((registers_of_outline heffect.outline id n c).mp hregisters)

end

/-- **A reload leaves alone what no scope has under the names**, also when it fails part
way. -/
theorem reinit_alone {w : Workspace β δ} {root : ScopeId} {names : List String} {reload : Bool}
    (h : ∀ id ∈ (w.tree root).scopes, ∀ n ∈ names, ¬ w.Registers id n c) :
    (w.reinit root names reload).2.vault.component? c = w.vault.component? c := by
  apply reinitTree_alone
  intro id hid n hn
  exact h id hid n ((Ascending.mem_ofList _ _).mp hn)

end Reinitialising

/-! ## 2. The gate -/

/-- One scope allows a reload when all that it has under the names takes one. -/
theorem ownReloadPossible_iff {w : Workspace β δ} {names : List String} {id : ScopeId} :
    w.ownReloadPossible names id = true ↔ ∀ n ∈ names, ∀ c x, w.Registers id n c →
      w.vault.component? c = some x → x.reloadable = true := by
  rw [ownReloadPossible, List.all_eq_true]
  constructor
  · intro h n hn c x hregisters hx
    obtain ⟨t, ht, rfl⟩ := (exists_target_iff w id names).mpr ⟨n, hn, hregisters⟩
    have ht' := h t ht
    rw [hx] at ht'
    exact ht'
  · intro h t ht
    obtain ⟨n, hn, hregisters⟩ := (exists_target_iff w id names).mp ⟨t, ht, rfl⟩
    cases hx : w.vault.component? t.2.component with
    | none => rfl
    | some x => exact h n hn _ x hregisters hx

/-- **The gate is open** when all that the scopes of the tree have under the names takes a
reload. -/
theorem isReloadPossible_iff {w : Workspace β δ} {root : ScopeId} {names : List String} :
    w.isReloadPossible root names = true ↔ ∀ id ∈ (w.tree root).scopes, ∀ n ∈ names, ∀ c x,
      w.Registers id n c → w.vault.component? c = some x → x.reloadable = true := by
  rw [isReloadPossible, List.all_eq_true]
  exact forall₂_congr fun id _ => ownReloadPossible_iff

section Gated

variable [Backing β] [DecidableEq δ] [Digest δ]

/-- **Reload what has changed**: the names that a fresh session finds, provided that it
can tell and that every scope of the tree allows it. What the reload comes to is given
if there was one. -/
def reloadGated (w : Workspace β δ) (root : ScopeId) (changes : ChangeSet) :
    Option Outcome × Workspace β δ :=
  match (w.startSave root).analyze changes w.vault with
  | (.unreloadable, vault) => (none, { w with vault })
  | (.reloadable names, vault) =>
    let w := { w with vault }
    if w.isReloadPossible root names then
      let out := w.reinit root names true
      (some out.1, out.2)
    else (none, w)

/-- What a gated reload comes to: an analysis changes nothing. -/
theorem reloadGated_eq (w : Workspace β δ) (root : ScopeId) (changes : ChangeSet) :
    w.reloadGated root changes
      = match ((w.startSave root).analyze changes w.vault).1 with
        | .unreloadable => (none, w)
        | .reloadable names =>
          if w.isReloadPossible root names then
            (some (w.reinit root names true).1, (w.reinit root names true).2)
          else (none, w) := by
  have hvault := (SessionTree.analyze_judges changes (w.startSave root) w.vault).1
  unfold reloadGated
  split
  · rename_i vault hanalysis
    rw [hanalysis] at hvault ⊢
    rw [show vault = w.vault from hvault]
  · rename_i names vault hanalysis
    rw [hanalysis] at hvault ⊢
    rw [show vault = w.vault from hvault]

/-- **What takes no reload is not touched** by a gated one, whatever becomes of it. -/
theorem component?_reloadGated {w : Workspace β δ} {root : ScopeId} {changes : ChangeSet}
    {c : ComponentId} {x : Component} (hx : w.vault.component? c = some x)
    (hpinned : x.reloadable = false) :
    (w.reloadGated root changes).2.vault.component? c = some x := by
  rw [reloadGated_eq]
  split
  · exact hx
  · rename_i names _
    split
    · rename_i hopen
      -- Nobody has it under one of the names, or the gate would not be open.
      refine Eq.trans (reinit_alone fun id hid n hn hregisters => ?_) hx
      have hreloadable := isReloadPossible_iff.mp hopen id hid n hn c x hregisters hx
      rw [hpinned] at hreloadable
      cases hreloadable
    · exact hx

/-- **The gate is sound.** After an analysis of any changes by a fresh session, and the
reload of what it has found if every scope allows that, no component that takes no
reload has changed, in the tree or outside, whether the reload has gone well, has failed
part way or has not been made. And if some scope of the tree has such a component under
one of the names, then the gate refuses, and nothing at all has changed: no component,
no storage, nor anything else. -/
theorem reloadGated_sound (w : Workspace β δ) (root : ScopeId) (changes : ChangeSet) :
    (∀ c x, w.vault.component? c = some x → x.reloadable = false →
        (w.reloadGated root changes).2.vault.component? c = some x) ∧
      ∀ names, ((w.startSave root).analyze changes w.vault).1 = .reloadable names →
        (∃ id ∈ (w.tree root).scopes, ∃ n ∈ names, ∃ c x, w.Registers id n c ∧
          w.vault.component? c = some x ∧ x.reloadable = false) →
        w.isReloadPossible root names = false ∧ w.reloadGated root changes = (none, w) := by
  refine ⟨fun c x hx hpinned => component?_reloadGated hx hpinned, ?_⟩
  rintro names hanalysis ⟨id, hid, n, hn, c, x, hregisters, hx, hpinned⟩
  have hclosed : w.isReloadPossible root names = false := by
    rw [Bool.eq_false_iff]
    intro hopen
    have hreloadable := isReloadPossible_iff.mp hopen id hid n hn c x hregisters hx
    rw [hpinned] at hreloadable
    cases hreloadable
  refine ⟨hclosed, ?_⟩
  rw [reloadGated_eq, hanalysis]
  simp only [hclosed, Bool.false_eq_true, if_false]

end Gated

/-- Two scopes with a component `a` each, in units of their own. That of the scope below
takes no reload, and both have a new value that is not saved. Then somebody else edits
the unit of the scope above. -/
def pinnedBelow : Workspace Memory Bytes :=
  (start {}).run
    [.disturb fun m => m.putExternal ⟨"/r.json"⟩ (Document.serialize [("a", .integer 1)]),
      .addScope "root" none 0, .addScope "m" none 0, .attach 0, .list 0 1,
      .addComponent { name := "a" }, .addComponent { name := "a", reloadable := false },
      .register 0 0 "a" "/r.json", .register 1 1 "a" "/m.json",
      .edit 0 fun c => c.set (.integer 5), .edit 1 fun c => c.set (.integer 6),
      .disturb fun m => m.putExternal ⟨"/r.json"⟩ (Document.serialize [("a", .integer 2)])]

/-- What is noticed of it. -/
def aboveChanged : ChangeSet := ChangeSet.ofList [⟨⟨"/r.json"⟩, none⟩]

/-- The scope below is asked about a name that was found above, and refuses for both. -/
theorem pinnedBelow_refused :
    ((pinnedBelow.startSave 0).analyze aboveChanged pinnedBelow.vault).1 = .reloadable ["a"] ∧
      pinnedBelow.isReloadPossible 0 ["a"] = false ∧
      pinnedBelow.reloadGated 0 aboveChanged = (none, pinnedBelow) ∧
      ∃ x, (pinnedBelow.reloadGated 0 aboveChanged).2.vault.component? 1 = some x ∧
        x.reloadable = false := by
  have hanalysis : ((pinnedBelow.startSave 0).analyze aboveChanged pinnedBelow.vault).1
      = .reloadable ["a"] := by decide +kernel
  have hregisters : pinnedBelow.Registers 1 "a" 1 := registers_of_entry (by decide +kernel)
  have hpinned : (pinnedBelow.vault.component? 1).map Component.reloadable = some false := by
    decide +kernel
  obtain ⟨x, hx, hxpinned⟩ := Option.map_eq_some_iff.mp hpinned
  obtain ⟨hspared, hrefused⟩ := reloadGated_sound pinnedBelow 0 aboveChanged
  obtain ⟨hclosed, hsame⟩ := hrefused ["a"] hanalysis
    ⟨1, by decide +kernel, "a", List.mem_singleton_self _, 1, x, hregisters, hx, hxpinned⟩
  exact ⟨hanalysis, hclosed, hsame, x, hspared 1 x hx hxpinned, hxpinned⟩

end Workspace

/-! ## 3. Reconciling a project -/

namespace Workspace

open SessionTree (Affected)

section Nothing

variable [Backing β] [Digest δ]

mutual

/-- A reload of no names does nothing. -/
theorem reinitTree_nil (reload : Bool) : ∀ (t : ScopeTree) (w : Workspace β δ),
    reinitTree [] reload t w = (.ok (), w)
  | .node id children, w => by
    have hown : w.reinitOwn id [] reload = (.ok (), w) := by
      have htargets : ((w.scope? id).elim [] fun s => targets s []) = [] := by
        cases w.scope? id <;> rfl
      unfold reinitOwn
      rw [htargets]
      cases reload <;> rfl
    rw [reinitTree, hown]
    exact reinitAll_nil reload children w

theorem reinitAll_nil (reload : Bool) : ∀ (ts : List ScopeTree) (w : Workspace β δ),
    reinitAll [] reload ts w = (.ok (), w)
  | [], _ => rfl
  | t :: ts, w => by
    rw [reinitAll, reinitTree_nil reload t w]
    exact reinitAll_nil reload ts w

end

variable [DecidableEq δ]

/-- Where no names are found, a gated reload changes nothing. -/
theorem reloadGated_of_nothing {w : Workspace β δ} {root : ScopeId} {changes : ChangeSet}
    (h : ((w.startSave root).analyze changes w.vault).1 = .reloadable []) :
    (w.reloadGated root changes).2 = w := by
  have hopen : w.isReloadPossible root [] = true :=
    isReloadPossible_iff.mpr fun _ _ n hn => absurd hn List.not_mem_nil
  rw [reloadGated_eq, h]
  simp only [hopen, if_true]
  rw [reinit, show Ascending.ofList ([] : List String) = [] from rfl, reinitTree_nil]

/-- No changes, no names. -/
theorem analyze_no_changes (w : Workspace β δ) (root : ScopeId) {changes : ChangeSet}
    (h : changes.isEmpty = true) :
    ((w.startSave root).analyze changes w.vault).1 = .reloadable [] := by
  obtain rfl : changes = [] := List.isEmpty_iff.mp h
  have hnone : ∀ slot, ¬ Affected ([] : ChangeSet) (w.startSave root).parts slot := by
    rintro slot ⟨s, _, _, haffects⟩
    cases haffects
  have hjudges := (SessionTree.analyze_judges [] (w.startSave root) w.vault).2
  cases hanalysis : ((w.startSave root).analyze [] w.vault).1 with
  | unreloadable =>
    rw [hanalysis] at hjudges
    obtain ⟨slot, _, hslot, _⟩ := hjudges
    exact absurd hslot (hnone slot)
  | reloadable names =>
    rw [hanalysis] at hjudges
    obtain rfl : names = [] := by
      rw [List.eq_nil_iff_forall_not_mem]
      intro n hn
      rcases (hjudges.2 n).mp hn with hn | ⟨slot, _, hslot, _⟩
      · exact List.not_mem_nil hn
      · exact hnone slot hslot
    rfl

end Nothing

end Workspace

namespace Command

variable {δ : Type} [DecidableEq δ] [Digest δ]

/-- **Reconciling a project** is a gated reload of its relevant changes, told in words. -/
theorem reconcile_space (project : Project δ) (changes : ChangeSet) :
    (reconcile project changes).2.space
      = (project.space.reloadGated project.root (relevant project changes)).2 := by
  unfold reconcile
  simp only []
  split
  · rename_i hempty
    rw [Workspace.reloadGated_of_nothing (Workspace.analyze_no_changes _ _ hempty)]
  · split
    · rename_i hanalysis
      rw [Workspace.reloadGated_eq, hanalysis]
    · rename_i hanalysis
      rw [Workspace.reloadGated_of_nothing hanalysis]
    · rename_i names _ hanalysis
      rw [Workspace.reloadGated_eq, hanalysis]
      simp only []
      split
      · split
        · rename_i hreinit
          rw [hreinit]
        · rename_i hreinit
          rw [hreinit]
      · rfl

/-- **Reconciling spares what takes no reload**, whatever it reports. -/
theorem component?_reconcile {project : Project δ} {changes : ChangeSet} {c : ComponentId}
    {x : Component} (hx : project.space.vault.component? c = some x)
    (hpinned : x.reloadable = false) :
    (reconcile project changes).2.space.vault.component? c = some x := by
  rw [reconcile_space]
  exact Workspace.component?_reloadGated hx hpinned

end Command

end ScopedState
