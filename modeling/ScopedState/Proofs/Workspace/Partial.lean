/-
`Proofs/Workspace/Partial.lean` -- reloading some of the components of a unit.

A reload is told names, and hands the components of these names what is stored
for them. But what it reads again are whole storages. Afterwards the storage of
a component that was named remembers the unit as it is on disk, with the entries
of all other components in it, and these others hold what they held before. To
a save that looks like an edit: a component whose value is not the remembered
entry. So it writes the old value, and what somebody else has put into the unit
for that component is gone.

Apart from that a reload and a save do what one expects. The units that were not
read again are not written, since their components hold what is remembered; a
component that was named keeps what is on disk, or gets its default, and entries
that belong to nobody stay (`reload_then_save`).
-/
import ScopedState.Proofs.Macros.Plain
import ScopedState.Proofs.Workspace.Entered
import ScopedState.Proofs.Workspace.Foreign
import ScopedState.Proofs.Workspace.Reconciled
import ScopedState.Proofs.Workspace.Sourced
set_option autoImplicit false

namespace ScopedState

open Bindings (Sorted get?)

variable {β δ : Type}

/-! ## 1. Values without strings -/

/-- Path variables play no part in a state. -/
def NoStrings (state : Option Json) : Prop := ∀ v, state = some v → v.strings = []

theorem NoStrings.orElse {x y : Option Json} (hx : NoStrings x) (hy : NoStrings y) :
    NoStrings (x <|> y) := by
  cases x with
  | none => exact hy
  | some v => exact hx

namespace Substitutor

theorem expandWith_of_noStrings (s : Option Substitutor) {v : Json} (hv : v.strings = []) :
    (expandWith s v).1 = v := by
  cases s with
  | none => rfl
  | some s =>
    refine Eq.trans ?_ (Json.mapStrings_id v)
    refine (Json.mapStrings_eq_iff v).mpr fun t ht => ?_
    rw [hv] at ht
    cases ht

theorem collapseWith_of_noStrings (table : Option MacroTable) {v : Json} (hv : v.strings = []) :
    collapseWith table v = v := by
  cases table with
  | none => rfl
  | some table =>
    refine Eq.trans ?_ (Json.mapStrings_id v)
    refine (Json.mapStrings_eq_iff v).mpr fun t ht => ?_
    rw [hv] at ht
    cases ht

/-- What a state without strings is expanded to is that state. -/
theorem map_expandWith_of_noStrings (s : Option Substitutor) {x : Option Json}
    (hx : NoStrings x) : (x.map fun v => (expandWith s v).1) = x := by
  cases x with
  | none => rfl
  | some v => exact congrArg some (expandWith_of_noStrings s (hx v rfl))

end Substitutor

namespace Workspace

/-! ## 2. Who is registered in a tree -/

/-- Some scope of a tree has a component under some name. -/
def Registered (w : Workspace β δ) (root : ScopeId) (r : Registration) : Prop :=
  r.scope ∈ (w.tree root).scopes ∧ w.entryOf? r.scope r.name = some r.entry

section Registered

variable {w w' : Workspace β δ} {root : ScopeId} {r : Registration} {l : Location} {n : String}

/-- A reload of some names goes through what is registered under them. -/
theorem mem_registrations_tree_iff {names : List String} :
    r ∈ w.registrations names (w.tree root).scopes ↔ w.Registered root r ∧ r.name ∈ names := by
  rw [mem_registrations_iff, Registered, entryOf?]
  constructor
  · rintro ⟨hid, hn, s, hs, he⟩
    exact ⟨⟨hid, by rw [hs]; exact he⟩, hn⟩
  · rintro ⟨⟨hid, hentry⟩, hn⟩
    obtain ⟨s, hs, he⟩ := Option.bind_eq_some_iff.mp hentry
    exact ⟨hid, hn, s, hs, he⟩

/-- A tree has a component of a name at a location when one is registered there. -/
theorem has_iff_registered :
    w.Has root l n ↔ ∃ r, w.Registered root r ∧ r.name = n ∧
      w.vault.location? r.entry.storage = some l := by
  have hlocation : ∀ k, w.vault.location? k = some l ↔
      ∃ u, (w.vault.storage? k).map Storage.unit = some u ∧ u.location = l :=
    fun k => Option.map_eq_some_iff
  constructor
  · rintro ⟨id, hid, u, hu, hl⟩
    obtain ⟨e, he, hunit⟩ := Option.bind_eq_some_iff.mp hu
    exact ⟨⟨id, n, e⟩, ⟨hid, he⟩, rfl, (hlocation _).mpr ⟨u, hunit, hl⟩⟩
  · rintro ⟨⟨id, m, e⟩, ⟨hid, he⟩, rfl, hl⟩
    obtain ⟨u, hunit, hu⟩ := (hlocation _).mp hl
    exact ⟨id, hid, u, Option.bind_eq_some_iff.mpr ⟨e, he, hunit⟩, hu⟩

/-- What is registered is registered by a scope. -/
theorem Registered.exists_scope (h : w.Registered root r) :
    ∃ s, w.scope? r.scope = some s ∧ get? s.components r.name = some r.entry :=
  Option.bind_eq_some_iff.mp h.2

/-- What is registered at a location has a state there, and nothing else has. -/
theorem get?_statesAt_registered (h : w.Kept) {id : ScopeId} (hid : id ∈ (w.tree root).scopes)
    {x : Option Json} :
    get? (w.statesAt l id) n = some x ↔ ∃ s e, w.Registered root ⟨id, n, e⟩ ∧
      w.scope? id = some s ∧ w.vault.location? e.storage = some l ∧
        x = w.storedState s e.component := by
  cases hs : w.scope? id with
  | none =>
    rw [statesAt, hs]
    constructor
    · intro hx
      cases hx
    · rintro ⟨s, e, _, hs', _⟩
      cases hs'
  | some s =>
    rw [get?_statesAt h hs, Option.map_eq_some_iff]
    constructor
    · rintro ⟨e, he, rfl⟩
      obtain ⟨hentry, hl⟩ := Option.filter_eq_some_iff.mp he
      refine ⟨s, e, ⟨hid, ?_⟩, rfl, of_decide_eq_true hl, rfl⟩
      exact Option.bind_eq_some_iff.mpr ⟨s, hs, hentry⟩
    · rintro ⟨t, e, hr, ht, hl, rfl⟩
      obtain rfl := Option.some.inj ht
      obtain ⟨t, ht, hentry⟩ := hr.exists_scope
      rw [hs] at ht
      obtain rfl := Option.some.inj ht
      exact ⟨e, Option.filter_eq_some_iff.mpr ⟨hentry, decide_eq_true hl⟩, rfl⟩

/-- The scopes of a tree have states for the names that are registered. -/
theorem isSome_statesAt_iff (h : w.Kept) :
    (∃ id ∈ (w.tree root).scopes, (get? (w.statesAt l id) n).isSome = true) ↔
      w.Has root l n := by
  rw [has_iff_registered]
  constructor
  · rintro ⟨id, hid, hsome⟩
    obtain ⟨x, hx⟩ := Option.isSome_iff_exists.mp hsome
    obtain ⟨s, e, hr, _, hl, _⟩ := (get?_statesAt_registered h hid).mp hx
    exact ⟨_, hr, rfl, hl⟩
  · rintro ⟨r, hr, rfl, hl⟩
    obtain ⟨s, hs, _⟩ := hr.exists_scope
    refine ⟨r.scope, hr.1, Option.isSome_iff_exists.mpr ⟨w.storedState s r.entry.component, ?_⟩⟩
    exact (get?_statesAt_registered h hr.1).mpr ⟨s, r.entry, hr, hs, hl, rfl⟩

/-- A state without strings is stored as it is. -/
theorem storedState_of_noStrings {s : Scope} {c : ComponentId} {x : Component}
    (hc : w.vault.component? c = some x) (hx : NoStrings x.value) :
    w.storedState s c = x.value := by
  rw [storedState, hc, Option.bind_some]
  cases hvalue : x.value with
  | none => rfl
  | some v => exact congrArg some (Substitutor.collapseWith_of_noStrings _ (hx v hvalue))

end Registered

/-! ## 3. What a reload leaves alone -/

section Leaving

variable [Backing β] [Digest δ] {w : Workspace β δ} {k : StorageId}

/-- A storage that is not among those to be loaded stays as it is. -/
theorem loadStorages_other {ids : List StorageId} (hk : k ∉ ids) (v : Vault β δ) :
    (loadStorages [] ids v).2.storage? k = v.storage? k := by
  obtain ⟨_, _, hstorage⟩ := loadStorages_spec (v := v) ids
    (fun k hk => absurd hk List.not_mem_nil) fun k hk => absurd hk List.not_mem_nil
  rw [hstorage, if_neg]
  exact fun hmem => hk (List.takeWhile_subset _ hmem)

omit [Backing β] [Digest δ] in
/-- Handing over states leaves all storages as they are. -/
theorem foldl_loadComponent_storage? (id : ScopeId) (ts : List (String × Entry))
    (w : Workspace β δ) :
    (ts.foldl (fun w t => w.loadComponent id t.1 t.2) w).vault.storage? = w.vault.storage? := by
  induction ts generalizing w with
  | nil => rfl
  | cons t ts ih => exact (ih _).trans (w.loadComponent_spec id t.1 t.2).2.1

theorem reinitOwn_other {id : ScopeId} {names : List String} (reload : Bool)
    (h : ∀ n ∈ names, ∀ e, w.entryOf? id n = some e → e.storage ≠ k) :
    (w.reinitOwn id names reload).2.vault.storage? k = w.vault.storage? k := by
  -- None of the components to be loaded is kept in the storage.
  have hother : k ∉ ((w.scope? id).elim [] fun s => targets s names).map fun t => t.2.storage := by
    intro hk
    obtain ⟨t, ht, hstorage⟩ := List.mem_map.mp hk
    cases hs : w.scope? id with
    | none =>
      rw [hs] at ht
      cases ht
    | some s =>
      rw [hs, Option.elim_some, targets, List.mem_filterMap] at ht
      obtain ⟨n, hn, hentry⟩ := ht
      obtain ⟨e, he, rfl⟩ := Option.map_eq_some_iff.mp hentry
      exact h n hn e (Option.bind_eq_some_iff.mpr ⟨s, hs, he⟩) hstorage
  have hloaded : (if reload then loadStorages []
        (((w.scope? id).elim [] fun s => targets s names).map fun t => t.2.storage) w.vault
      else (.ok (), w.vault)).2.storage? k = w.vault.storage? k := by
    split
    · exact loadStorages_other hother w.vault
    · rfl
  unfold reinitOwn
  simp only []
  split
  · exact hloaded
  · rw [foldl_loadComponent_storage?]
    exact hloaded

mutual

theorem reinitTree_other (names : List String) (reload : Bool) :
    ∀ (t : ScopeTree) (w : Workspace β δ),
      (∀ id ∈ t.scopes, ∀ n ∈ names, ∀ e, w.entryOf? id n = some e → e.storage ≠ k) →
        (reinitTree names reload t w).2.vault.storage? k = w.vault.storage? k
  | .node id children, w, h => by
    have hown := reinitOwn_other reload (h id List.mem_cons_self)
    have heffect := reinitOwn_effect w id names reload
    rw [reinitTree]
    split
    · rename_i e w' he
      rw [he] at hown
      exact hown
    · rename_i w' he
      rw [he] at hown heffect
      refine (reinitAll_other names reload children w' fun j hj => ?_).trans hown
      rw [entryOf?_of_outline heffect.outline]
      exact h j (List.mem_cons_of_mem _ hj)

theorem reinitAll_other (names : List String) (reload : Bool) :
    ∀ (ts : List ScopeTree) (w : Workspace β δ),
      (∀ id ∈ ScopeTree.scopesOfAll ts, ∀ n ∈ names, ∀ e,
        w.entryOf? id n = some e → e.storage ≠ k) →
        (reinitAll names reload ts w).2.vault.storage? k = w.vault.storage? k
  | [], w, _ => by rw [reinitAll]
  | t :: ts, w, h => by
    have hfirst := reinitTree_other names reload t w
      fun j hj => h j (List.mem_append_left _ hj)
    have heffect := reinitTree_effect names reload t w
    rw [reinitAll]
    split
    · rename_i e w' he
      rw [he] at hfirst
      exact hfirst
    · rename_i w' he
      rw [he] at hfirst heffect
      refine (reinitAll_other names reload ts w' fun j hj => ?_).trans hfirst
      rw [entryOf?_of_outline heffect.outline]
      exact h j (List.mem_append_right _ hj)

end

/-- **A reload leaves a storage alone** in which no scope of the tree has a component
under one of the names. -/
theorem reinit_other {root : ScopeId} {names : List String} {reload : Bool}
    (h : ∀ r, w.Registered root r → r.name ∈ names → r.entry.storage ≠ k) :
    (w.reinit root names reload).2.vault.storage? k = w.vault.storage? k := by
  refine reinitTree_other _ reload (w.tree root) w fun id hid n hn e he => ?_
  exact h ⟨id, n, e⟩ ⟨hid, he⟩ ((Ascending.mem_ofList names n).mp hn)

end Leaving

/-! ## 4. A tree at rest -/

/-- What is remembered for a registration, references turned into paths. -/
def remembered (w : Workspace β δ) (r : Registration) : Option Json :=
  (get? (w.vault.snapshot r.entry.storage).document r.name).map fun v =>
    (Substitutor.expandWith ((w.scope? r.scope).bind Scope.substitutor) v).1

/-- **A tree at rest**: nobody has edited a component since it was loaded or saved,
and path variables play no part in the values. -/
structure AtRest (w : Workspace β δ) (root : ScopeId) : Prop where
  holds : ∀ r, w.Registered root r →
    ∃ c, w.vault.component? r.entry.component = some c ∧ c.value = w.remembered r
  noStrings : ∀ r c, w.Registered root r → w.vault.component? r.entry.component = some c →
    NoStrings c.value ∧ NoStrings c.default?

/-- Every component of a tree is registered once. -/
def Sole (w : Workspace β δ) (root : ScopeId) : Prop :=
  ∀ r r', w.Registered root r → w.Registered root r' →
    r.entry.component = r'.entry.component → r = r'

/-- Two components of one name in one unit have the same default. -/
def AgreesOnDefaults (w : Workspace β δ) (root : ScopeId) : Prop :=
  ∀ r r', w.Registered root r → w.Registered root r' → r.name = r'.name →
    w.vault.location? r.entry.storage = w.vault.location? r'.entry.storage →
      (w.vault.component? r.entry.component).bind Component.default?
        = (w.vault.component? r'.entry.component).bind Component.default?

/-- What a component has to say after a reload of some names from a document: what
is stored there or its default if it was named, and what it held if not. -/
def afterReload (names : List String) (d : Document) (n : String) (c : Component) : Option Json :=
  if n ∈ names then get? d n <|> c.default? else c.value

section Resting

variable [Backing β] [Digest δ] {w : Workspace β δ} {root : ScopeId} {names : List String}
  {r : Registration} {c : Component} {l : Location} {d : Document}

omit [Backing β] [Digest δ] in
/-- A component of a tree at rest holds the remembered entry. -/
theorem AtRest.value_eq (h : w.AtRest root) (hr : w.Registered root r)
    (hc : w.vault.component? r.entry.component = some c) :
    c.value = get? (w.vault.snapshot r.entry.storage).document r.name := by
  obtain ⟨c', hc', hvalue⟩ := h.holds r hr
  obtain rfl := Option.some.inj (hc.symm.trans hc')
  have hnone := (h.noStrings r c hr hc).1
  rw [remembered] at hvalue
  cases hentry : get? (w.vault.snapshot r.entry.storage).document r.name with
  | none =>
    rw [hentry] at hvalue
    exact hvalue
  | some v =>
    rw [hentry, Option.map_some] at hvalue
    -- Expanding replaces strings, so there were none before either.
    have hv : v.strings = [] := by
      have hexpanded := hnone _ hvalue
      cases hs : (w.scope? r.scope).bind Scope.substitutor with
      | none =>
        rw [hs] at hexpanded
        exact hexpanded
      | some s =>
        rw [hs] at hexpanded
        have hmapped := (Json.strings_mapStrings (MacroTable.expand s.table) v).symm.trans hexpanded
        exact List.map_eq_nil_iff.mp hmapped
    rw [hvalue, Substitutor.expandWith_of_noStrings _ hv]

/-- **A component after a reload** holds what is stored for it or its default if it
was named, and what it held before if not. -/
theorem component_reloaded (hok : (w.reinit root names true).1 = .ok ()) (hsole : w.Sole root)
    (hr : w.Registered root r) (hc : w.vault.component? r.entry.component = some c) :
    ∃ c', (w.reinit root names true).2.vault.component? r.entry.component = some c' ∧
      c'.value = if r.name ∈ names then w.shown r <|> c.default? else c.value := by
  have hreloaded := reloaded_of_reinit hok
  by_cases hn : r.name ∈ names
  · rw [if_pos hn]
    have hdefault := hreloaded.default r.entry.component
    rw [hc, Option.map_some] at hdefault
    obtain ⟨c', hc', hsame⟩ := Option.map_eq_some_iff.mp hdefault
    have hmem : r ∈ w.registrations (Ascending.ofList names) (w.tree root).scopes :=
      mem_registrations_tree_iff.mpr ⟨hr, (Ascending.mem_ofList names r.name).mpr hn⟩
    -- The registration that had the last word is this one.
    obtain ⟨r', hr', hcomponent, hvalue⟩ := hreloaded.holds r hmem c' hc'
    rw [hsole r' r (mem_registrations_tree_iff.mp hr').1 hr hcomponent, hsame] at hvalue
    exact ⟨c', hc', hvalue⟩
  · rw [if_neg hn]
    refine ⟨c, ?_, rfl⟩
    rw [(reinit_hands r.entry.component hok).alone, hc]
    rintro ⟨id, hid, n, hnamed, s, e, hs, he, hcomponent⟩
    have hr' : w.Registered root ⟨id, n, e⟩ := ⟨hid, Option.bind_eq_some_iff.mpr ⟨s, hs, he⟩⟩
    rw [hsole r ⟨id, n, e⟩ hr hr' hcomponent.symm] at hn
    exact hn hnamed

/-- **What a component has to say after a reload.** -/
theorem storedState_reloaded (hok : (w.reinit root names true).1 = .ok ()) (hsole : w.Sole root)
    (hrest : w.AtRest root) (hr : w.Registered root r)
    (hc : w.vault.component? r.entry.component = some c)
    (hread : r.name ∈ names → w.shown r = get? d r.name)
    (hd : r.name ∈ names → NoStrings (get? d r.name)) (s : Scope) :
    (w.reinit root names true).2.storedState s r.entry.component
      = afterReload names d r.name c := by
  obtain ⟨c', hc', hvalue⟩ := component_reloaded hok hsole hr hc
  obtain ⟨hold, hdefault⟩ := hrest.noStrings r c hr hc
  rw [afterReload]
  by_cases hn : r.name ∈ names
  · rw [if_pos hn, hread hn] at hvalue
    rw [if_pos hn, ← hvalue]
    refine storedState_of_noStrings hc' ?_
    rw [hvalue]
    exact (hd hn).orElse hdefault
  · rw [if_neg hn] at hvalue
    rw [if_neg hn, ← hvalue]
    refine storedState_of_noStrings hc' ?_
    rw [hvalue]
    exact hold

end Resting

/-! ## 5. Saving after a reload -/

section Saving

variable [Backing β] [LawfulBacking β] [DecidableEq δ] [Digest δ] {w : Workspace β δ}
  {root : ScopeId} {names : List String} {l : Location}

omit [LawfulBacking β] [DecidableEq δ] in
/-- The same is registered after a reload as before. -/
theorem registered_reinit {r : Registration} :
    (w.reinit root names true).2.Registered root r ↔ w.Registered root r := by
  have houtline := (w.reinit_effect root names true).outline
  rw [Registered, Registered, tree_of_outline houtline, entryOf?_of_outline houtline]

omit [LawfulBacking β] [DecidableEq δ] in
/-- Every storage keeps its place. -/
theorem location?_reinit (w : Workspace β δ) (root : ScopeId) (names : List String) :
    (w.reinit root names true).2.vault.location? = w.vault.location? := by
  funext k
  rw [Vault.location?, Vault.location?, (w.reinit_effect root names true).vault.unit]

omit [LawfulBacking β] [DecidableEq δ] in
theorem has_reinit {n : String} :
    (w.reinit root names true).2.Has root l n ↔ w.Has root l n := by
  simp only [has_iff_registered, registered_reinit, location?_reinit]

omit [DecidableEq δ] in
/-- A reload does not touch the store. -/
theorem contents_reinit (w : Workspace β δ) (root : ScopeId) (names : List String) :
    (w.reinit root names true).2.vault.contents = w.vault.contents := by
  funext l
  rw [Vault.contents, Vault.contents, (w.reinit_effect root names true).vault.backing]

omit [LawfulBacking β] in
/-- **Nothing is staged for a unit that no name leads to.** It was not read again, and
its components hold what is remembered. -/
theorem stage_of_unread (hrest : w.AtRest root) (hsole : w.Sole root)
    (hok : (w.reinit root names true).1 = .ok ())
    (h : (w.reinit root names true).2.Stages root)
    (hsourced : (w.reinit root names true).2.vault.Sourced)
    (hunread : ∀ n ∈ names, ¬ w.Has root l n) {id : ScopeId} {k : StorageId} {st : Storage δ}
    (hmaps : (w.reinit root names true).2.Maps root id l k)
    (hst : (w.reinit root names true).2.vault.storage? k = some st) :
    st.snapshot.stage ((w.reinit root names true).2.statesAt l id) = none := by
  have hlocated : w.vault.location? k = some l := by
    rw [← location?_reinit w root names]
    exact hmaps.location h.kept
  obtain ⟨hid, s', u, hs', hk⟩ := hmaps
  -- The storage remembers what it did before.
  have hsame : w.vault.storage? k = some st := by
    rw [← hst]
    refine (reinit_other fun r hr hn hstorage => ?_).symm
    refine hunread r.name hn (has_iff_registered.mpr ⟨r, hr, rfl, ?_⟩)
    rw [hstorage]
    exact hlocated
  obtain ⟨content, hdescribes⟩ := hsourced _ _ hst
  refine Snapshot.stage_eq_none_iff.mpr (Or.inl ?_)
  refine Snapshot.redundant_of_same hdescribes.hash hdescribes.absent ?_
  refine (Document.same_merge_iff hdescribes.sorted (sorted_statesAt h.kept _ id)).mpr ?_
  intro n state hstate
  obtain ⟨s, e, hr, hs, hle, rfl⟩ := (get?_statesAt_registered h.kept hid).mp hstate
  obtain rfl := Option.some.inj (hs.symm.trans hs')
  -- The component is kept in this storage.
  have hentry : e.storage = k := by
    obtain ⟨t, ht, he⟩ := hr.exists_scope
    obtain rfl := Option.some.inj (hs.symm.trans ht)
    exact (storage_eq_iff_location h.kept h.apart (h.live id hid) hs hk he).mpr hle
  rw [registered_reinit] at hr
  rw [location?_reinit] at hle
  have hnot : n ∉ names := fun hn => hunread n hn (has_iff_registered.mpr ⟨_, hr, rfl, hle⟩)
  obtain ⟨c, hc, _⟩ := hrest.holds _ hr
  have hstored := storedState_reloaded (d := st.snapshot.document) hok hsole hrest hr hc
    (fun hn => absurd hn hnot) (fun hn => absurd hn hnot) s
  rw [hstored, afterReload, if_neg hnot, hrest.value_eq hr hc, hentry, Vault.snapshot_eq hsame]
  exact Json.sameOption_refl _

omit [LawfulBacking β] [DecidableEq δ] in
/-- What the scopes of a tree have to say after a reload is consistent in a unit that
was read. -/
theorem consistent_reloaded (hrest : w.AtRest root) (hsole : w.Sole root)
    (hdefaults : w.AgreesOnDefaults root) (hok : (w.reinit root names true).1 = .ok ())
    (hkept : (w.reinit root names true).2.Kept) {k : StorageId} {d : Document}
    (hstorage : ∀ r, w.Registered root r → w.vault.location? r.entry.storage = some l →
      r.entry.storage = k)
    (hread : ∀ r, w.Registered root r → w.vault.location? r.entry.storage = some l →
      r.name ∈ names → w.shown r = get? d r.name)
    (hd : ∀ n, w.Has root l n → NoStrings (get? d n)) :
    Consistent (((w.reinit root names true).2.tree root).scopes.map
      ((w.reinit root names true).2.statesAt l)) := by
  -- Each state is what some registration has to say.
  have hstate : ∀ id ∈ ((w.reinit root names true).2.tree root).scopes, ∀ n x,
      get? ((w.reinit root names true).2.statesAt l id) n = some x →
        ∃ e c, w.Registered root ⟨id, n, e⟩ ∧ w.vault.location? e.storage = some l ∧
          w.vault.component? e.component = some c ∧ x = afterReload names d n c := by
    intro id hid n x hx
    obtain ⟨s, e, hr, hs, hl, rfl⟩ := (get?_statesAt_registered hkept hid).mp hx
    rw [registered_reinit] at hr
    rw [location?_reinit] at hl
    obtain ⟨c, hc, _⟩ := hrest.holds _ hr
    exact ⟨e, c, hr, hl, hc, storedState_reloaded hok hsole hrest hr hc (hread _ hr hl)
      (fun _ => hd n (has_iff_registered.mpr ⟨_, hr, rfl, hl⟩)) s⟩
  intro states hstates states' hstates' n x y hx hy
  obtain ⟨id, hid, rfl⟩ := List.mem_map.mp hstates
  obtain ⟨id', hid', rfl⟩ := List.mem_map.mp hstates'
  obtain ⟨e, c, hr, hl, hc, rfl⟩ := hstate id hid n x hx
  obtain ⟨e', c', hr', hl', hc', rfl⟩ := hstate id' hid' n y hy
  rw [afterReload, afterReload]
  -- Both have the entry of the document or their default, or both have what they had.
  by_cases hn : n ∈ names
  · have hdefault := hdefaults _ _ hr hr' rfl (hl.trans hl'.symm)
    simp only [hc, hc', Option.bind_some] at hdefault
    rw [if_pos hn, if_pos hn, hdefault]
  · rw [if_neg hn, if_neg hn, hrest.value_eq hr hc, hrest.value_eq hr' hc']
    rw [hstorage _ hr hl, hstorage _ hr' hl']

omit [LawfulBacking β] in
/-- **A unit that a name leads to has been read again**, into the one storage that all
its components are kept in. -/
theorem read_of_named (hok : (w.reinit root names true).1 = .ok ())
    (h : (w.reinit root names true).2.Stages root) {r₀ : Registration}
    (hr₀ : w.Registered root r₀) (hn₀ : r₀.name ∈ names)
    (hl₀ : w.vault.location? r₀.entry.storage = some l) :
    (w.reinit root names true).2.Maps root r₀.scope l r₀.entry.storage ∧
      ∃ st, (w.reinit root names true).2.vault.storage? r₀.entry.storage = some st ∧
        w.vault.readSnapshot st.unit = .ok st.snapshot ∧
        ∀ r, w.Registered root r → w.vault.location? r.entry.storage = some l →
          r.entry.storage = r₀.entry.storage ∧ (NoStrings (get? st.snapshot.document r.name) →
            w.shown r = get? st.snapshot.document r.name) := by
  have hmapped : ∀ r, w.Registered root r → w.vault.location? r.entry.storage = some l →
      (w.reinit root names true).2.Maps root r.scope l r.entry.storage := by
    intro r hr hl
    have hr' : (w.reinit root names true).2.Registered root r := registered_reinit.mpr hr
    obtain ⟨s, hs, he⟩ := hr'.exists_scope
    obtain ⟨l', u, hk⟩ := (h.kept.scope hs).mapped _ _ he
    have hl' := (h.kept.scope hs).located _ _ _ hk
    rw [location?_reinit, hl] at hl'
    exact ⟨hr'.1, s, u, hs, Option.some.inj hl' ▸ hk⟩
  have hmem : r₀ ∈ w.registrations (Ascending.ofList names) (w.tree root).scopes :=
    mem_registrations_tree_iff.mpr ⟨hr₀, (Ascending.mem_ofList names _).mpr hn₀⟩
  obtain ⟨hloads, hread⟩ := (reloaded_of_reinit hok).read r₀ hmem
  obtain ⟨u, hu, _⟩ := Option.map_eq_some_iff.mp hl₀
  obtain ⟨st, hst, _⟩ := Vault.unit?_eq_some hu
  rw [hst, Option.map_some] at hread
  refine ⟨hmapped r₀ hr₀ hl₀, w.vault.reread st, hread, ?_, fun r hr hl => ?_⟩
  · rw [Vault.reread_unit, Vault.reread]
    rw [Vault.loads, Vault.load_outcome, hst, Option.elim_some] at hloads
    cases hsnapshot : w.vault.readSnapshot st.unit with
    | error e =>
      rw [hsnapshot] at hloads
      cases hloads
    | ok snapshot => rfl
  · have hsame := (hmapped r₀ hr₀ hl₀).storage_eq h (hmapped r hr hl)
    refine ⟨hsame, fun hd => ?_⟩
    rw [shown, hsame, hst, Option.map_some, Option.bind_some, Storage.state?]
    exact Substitutor.map_expandWith_of_noStrings _ hd

omit [DecidableEq δ] in
/-- A unit is plain after a reload if it is plain as the tree has components in it. -/
theorem originAt_reinit (hkept : (w.reinit root names true).2.Kept) (d : Document) :
    (w.reinit root names true).2.originAt root l d = ⟨w.vault.contents l, d, w.Has root l⟩ := by
  have howned : (fun n => ∃ id ∈ ((w.reinit root names true).2.tree root).scopes,
      (get? ((w.reinit root names true).2.statesAt l id) n).isSome = true) = w.Has root l := by
    funext n
    exact propext ((isSome_statesAt_iff hkept).trans has_reinit)
  rw [originAt, howned, contents_reinit]

omit [LawfulBacking β] [DecidableEq δ] in
/-- **What a scope has to say for a component after a reload**, at the place of a unit that
was read. -/
theorem get?_statesAt_reloaded (hrest : w.AtRest root) (hsole : w.Sole root)
    (hok : (w.reinit root names true).1 = .ok ()) (hkept : (w.reinit root names true).2.Kept)
    {r : Registration} {c : Component} {d : Document} (hr : w.Registered root r)
    (hl : w.vault.location? r.entry.storage = some l)
    (hc : w.vault.component? r.entry.component = some c)
    (hread : r.name ∈ names → w.shown r = get? d r.name)
    (hd : r.name ∈ names → NoStrings (get? d r.name)) :
    get? ((w.reinit root names true).2.statesAt l r.scope) r.name
      = some (afterReload names d r.name c) := by
  have hr' : (w.reinit root names true).2.Registered root r := registered_reinit.mpr hr
  have hl' : (w.reinit root names true).2.vault.location? r.entry.storage = some l := by
    rw [location?_reinit]
    exact hl
  obtain ⟨s, hs, _⟩ := hr'.exists_scope
  refine (get?_statesAt_registered hkept hr'.1).mpr ⟨s, r.entry, hr', hs, hl', ?_⟩
  exact (storedState_reloaded hok hsole hrest hr hc hread hd s).symm

omit [LawfulBacking β] in
/-- A reload is a step like any other: the tree can be saved after it. -/
theorem stages_of_reload (hw : w.Reachable Action.OnePool) (hroot : root ∈ w.live)
    (hsave : ((w.reinit root names true).2.save root).1 = .ok ()) :
    (w.reinit root names true).2.Reachable Action.OnePool ∧
      (w.reinit root names true).2.Stages root ∧
      ((w.reinit root names true).2.save root).2.vault
        = Turn.perform ((w.reinit root names true).2.stagedOn root
            (w.reinit root names true).2.vault).writes (w.reinit root names true).2.vault ∧
      ∀ turn ∈ Turn.all ((w.reinit root names true).2.stagedOn root
          (w.reinit root names true).2.vault).writes (w.reinit root names true).2.vault,
        turn.answer = .ok () := by
  have hreached : (w.reinit root names true).2.Reachable Action.OnePool :=
    hw.steps (.act (.reinit root names true) (.refl w) trivial fun id hid => by
      rw [← Option.some.inj hid]
      exact hroot)
  have hlive : (w.reinit root names true).2.outline.live = w.outline.live :=
    congrArg Workspace.live (w.reinit_effect root names true).outline
  obtain ⟨hkept, hclosed, hpooled⟩ := hreached.pooled
  obtain ⟨hstages, hsaved, hturns⟩ :=
    stages_of_save hkept hclosed hpooled.apart (hlive.symm ▸ hroot) hsave
  exact ⟨hreached, hstages, congrArg Workspace.vault hsaved, hturns⟩

/-- **What a save leaves after a reload.** All scopes share one pool, whatever has
happened before, and a tree is at rest: each of its components holds what is
remembered for it, and is registered once. Meanwhile somebody else may have
edited the units. Then a reload of some names goes well, and so does a save.

A unit where no component was named is as it was on disk. In a unit where one was
named, a component that was named keeps its entry on disk, or has its default for
one if there is none; and a component that was not named gets back the value that
it held before, whatever the edit has made of its entry. Entries of names that
nobody has there stay. All this provided that the bytes on disk are not the text
of some other document. -/
theorem reload_then_save (hfaithful : Digest.Faithful δ) (hw : w.Reachable Action.OnePool)
    (hroot : root ∈ w.live) (hrest : w.AtRest root) (hsole : w.Sole root)
    (hdefaults : w.AgreesOnDefaults root) (hreload : (w.reinit root names true).1 = .ok ())
    (hsave : ((w.reinit root names true).2.save root).1 = .ok ()) :
    let before := w.vault.contents
    let after := ((w.reinit root names true).2.save root).2.vault.contents
    (∀ l, (∀ n ∈ names, ¬ w.Has root l n) → after l = before l) ∧
      ∀ l, (∃ n ∈ names, w.Has root l n) → ∃ unit d,
        Path.location unit = l ∧ Document.ofContent unit (before l) = .ok d ∧
        ((∀ n, w.Has root l n → NoStrings (get? d n)) →
          Origin.Plain ⟨before l, d, w.Has root l⟩ →
          ∃ e, Sorted e ∧ (after l = some (Document.serialize e) ∨ after l = before l ∧ e = d) ∧
            (∀ n, ¬ w.Has root l n → get? e n = get? d n) ∧
            ∀ r c, w.Registered root r → w.vault.location? r.entry.storage = some l →
              w.vault.component? r.entry.component = some c →
                Json.sameOption (get? e r.name) (afterReload names d r.name c) = true) := by
  intro before after
  obtain ⟨hreached, hstages, hsaved, hturns⟩ := stages_of_reload hw hroot hsave
  have hkept := hstages.kept
  have hbefore := contents_reinit w root names
  have hafter : after = _ := congrArg Vault.contents hsaved
  rw [hafter]
  refine ⟨fun l hunread => ?_, fun l hread => ?_⟩
  · -- Without a write for it, a unit stays as it is.
    refine Eq.trans ?_ (congrFun hbefore l)
    exact contents_of_idle hstages fun id k st hmaps hst =>
      stage_of_unread hrest hsole hreload hstages hreached.sourced.vault hunread hmaps hst
  · obtain ⟨n₀, hn₀, hhas⟩ := hread
    obtain ⟨r₀, hr₀, rfl, hl₀⟩ := has_iff_registered.mp hhas
    obtain ⟨hmaps, st, hst, hsnapshot, hall⟩ := read_of_named hreload hstages hr₀ hn₀ hl₀
    obtain rfl := unit_of_maps hkept hmaps hst
    refine ⟨st.unit, st.snapshot.document, rfl, Vault.document_of_readSnapshot hsnapshot,
      fun hd hplain => ?_⟩
    have hdescribes := Vault.describes_of_readSnapshot hsnapshot
    have hnone : ∀ r, w.Registered root r →
        w.vault.location? r.entry.storage = some st.unit.location →
          NoStrings (get? st.snapshot.document r.name) :=
      fun r hr hl => hd _ (has_iff_registered.mpr ⟨r, hr, rfl, hl⟩)
    have hshown : ∀ r, w.Registered root r →
        w.vault.location? r.entry.storage = some st.unit.location → r.name ∈ names →
          w.shown r = get? st.snapshot.document r.name :=
      fun r hr hl _ => (hall r hr hl).2 (hnone r hr hl)
    have hconsistent := consistent_reloaded hrest hsole hdefaults hreload hkept
      (fun r hr hl => (hall r hr hl).1) hshown hd
    rw [← originAt_reinit hkept] at hplain
    rw [← hbefore] at hdescribes
    obtain ⟨e, he, hholds, hsaid, hothers⟩ :=
      exists_saved hstages hfaithful hconsistent hmaps hst hdescribes hturns hplain
    rw [hbefore] at hholds
    refine ⟨e, he, hholds, fun n hn => hothers n fun id hid => ?_, fun r c hr hl hc => ?_⟩
    · refine Option.not_isSome_iff_eq_none.mp fun hsome => hn ?_
      exact has_reinit.mp ((isSome_statesAt_iff hkept).mp ⟨id, hid, hsome⟩)
    · -- The document that is written says what the scope of the component says.
      have hname := (Document.same_iff he (sorted_saved hdescribes.sorted)).mp hsaid r.name
      have hstate := get?_statesAt_reloaded hrest hsole hreload hkept hr hl hc (hshown r hr hl)
        fun _ => hnone r hr hl
      rwa [get?_saved_of_mem hkept hconsistent (registered_reinit.mpr hr).1 hstate] at hname

end Saving

/-! ## 6. One component of two -/

/-- A scope has two components in one unit and a third one in another, all of them
saved with the value 1. Then somebody else makes it 2 in both units. -/
def restEvents : List (Action Memory) :=
  [.addScope "root" none 0,
    .addComponent { name := "a" }, .addComponent { name := "b" }, .addComponent { name := "c" },
    .register 0 0 "a" "/u.json", .register 0 1 "b" "/u.json", .register 0 2 "c" "/v.json",
    .edit 0 fun c => c.set (.integer 1), .edit 1 fun c => c.set (.integer 1),
    .edit 2 fun c => c.set (.integer 1), .save 0,
    .disturb fun m =>
      let first := m.putExternal ⟨"/u.json"⟩
        (Document.serialize [("a", .integer 2), ("b", .integer 2)])
      first.putExternal ⟨"/v.json"⟩ (Document.serialize [("c", .integer 2)])]

/-- What they lead to. -/
def editedAtRest : Workspace Memory Bytes := (start {}).run restEvents

theorem editedAtRest_reachable : editedAtRest.Reachable Action.OnePool := by
  refine ⟨{}, steps_run (fun a ha => ?_) (by decide +kernel)⟩
  simp only [restEvents, List.mem_cons, List.not_mem_nil, or_false] at ha
  rcases ha with rfl | rfl | rfl | rfl | rfl | rfl | rfl | rfl | rfl | rfl | rfl | rfl <;> trivial

theorem editedAtRest_registered {r : Registration} (h : editedAtRest.Registered 0 r) :
    r = ⟨0, "a", ⟨0, 0⟩⟩ ∨ r = ⟨0, "b", ⟨1, 0⟩⟩ ∨ r = ⟨0, "c", ⟨2, 1⟩⟩ := by
  obtain ⟨id, n, e⟩ := r
  obtain ⟨hid, hentry⟩ := h
  have hscopes : (editedAtRest.tree 0).scopes = [0] := by decide +kernel
  rw [hscopes] at hid
  obtain rfl : id = 0 := List.mem_singleton.mp hid
  have hentries : editedAtRest.entryOf? 0
      = get? [("a", ⟨0, 0⟩), ("b", ⟨1, 0⟩), ("c", ⟨2, 1⟩)] := rfl
  have hmem := Bindings.mem_of_get? ((congrFun hentries n).symm.trans hentry)
  simp only [List.mem_cons, List.not_mem_nil, or_false, Prod.mk.injEq] at hmem
  rcases hmem with ⟨rfl, rfl⟩ | ⟨rfl, rfl⟩ | ⟨rfl, rfl⟩
  · exact Or.inl rfl
  · exact Or.inr (Or.inl rfl)
  · exact Or.inr (Or.inr rfl)

theorem editedAtRest_atRest : editedAtRest.AtRest 0 := by
  have hvalue : ∀ c : Nat, c < 3 → ∃ x, editedAtRest.vault.component? c = some x ∧
      x.value = some (.integer 1) ∧ x.default? = none := by
    intro c hc
    obtain rfl | rfl | rfl : c = 0 ∨ c = 1 ∨ c = 2 := by omega
    · exact ⟨_, rfl, rfl, rfl⟩
    · exact ⟨_, rfl, rfl, rfl⟩
    · exact ⟨_, rfl, rfl, rfl⟩
  have hcomponent : ∀ r, editedAtRest.Registered 0 r → r.entry.component < 3 ∧
      editedAtRest.remembered r = some (.integer 1) := by
    intro r hr
    rcases editedAtRest_registered hr with rfl | rfl | rfl
    · exact ⟨by decide, rfl⟩
    · exact ⟨by decide, rfl⟩
    · exact ⟨by decide, rfl⟩
  refine ⟨fun r hr => ?_, fun r c hr hc => ?_⟩
  · obtain ⟨hlt, hremembered⟩ := hcomponent r hr
    obtain ⟨x, hx, hvalue, _⟩ := hvalue _ hlt
    exact ⟨x, hx, hvalue.trans hremembered.symm⟩
  · obtain ⟨x, hx, hvalue, hdefault⟩ := hvalue _ (hcomponent r hr).1
    obtain rfl := Option.some.inj (hx.symm.trans hc)
    rw [hvalue, hdefault]
    exact ⟨fun v hv => by rw [← Option.some.inj hv]; rfl, fun v hv => by cases hv⟩

theorem editedAtRest_sole : editedAtRest.Sole 0 := by
  intro r r' hr hr' hsame
  rcases editedAtRest_registered hr with rfl | rfl | rfl <;>
    rcases editedAtRest_registered hr' with rfl | rfl | rfl <;>
      first | rfl | exact absurd hsame (by decide)

/-- Only the first component is reloaded. It keeps the new value, and so does the one
in the other unit; the one beside it is written back. -/
theorem reload_then_save_one_of_two :
    let saved := ((editedAtRest.reinit 0 ["a"] true).2.save 0).2
    saved.vault.contents (Path.location ⟨"/v.json"⟩)
        = editedAtRest.vault.contents (Path.location ⟨"/v.json"⟩) ∧
      ∃ e : Document, saved.vault.contents (Path.location ⟨"/u.json"⟩) = some e.serialize ∧
        Json.sameOption (get? e "a") (some (.integer 2)) = true ∧
        Json.sameOption (get? e "b") (some (.integer 1)) = true := by
  intro saved
  have hdefaults : editedAtRest.AgreesOnDefaults 0 := by
    intro r r' hr hr' _ _
    rcases editedAtRest_registered hr with rfl | rfl | rfl <;>
      rcases editedAtRest_registered hr' with rfl | rfl | rfl <;> rfl
  have hreload : (editedAtRest.reinit 0 ["a"] true).1 = .ok () := by decide +kernel
  obtain ⟨hunread, hread⟩ := reload_then_save Digest.faithful_bytes editedAtRest_reachable
    (by decide +kernel) editedAtRest_atRest editedAtRest_sole hdefaults hreload (by decide +kernel)
  have hhas : editedAtRest.Has 0 (Path.location ⟨"/u.json"⟩) "a" :=
    ⟨0, by decide +kernel, ⟨"/u.json"⟩, rfl, rfl⟩
  refine ⟨hunread _ fun n hn hother => ?_, ?_⟩
  · -- The component that is reloaded is not kept in the other unit.
    obtain rfl := List.mem_singleton.mp hn
    obtain ⟨r, hr, hname, hl⟩ := has_iff_registered.mp hother
    rcases editedAtRest_registered hr with rfl | rfl | rfl
    · exact absurd hl (by decide +kernel)
    · exact absurd hname (by decide)
    · exact absurd hname (by decide)
  · obtain ⟨unit, d, _, hd, hleft⟩ := hread _ ⟨"a", List.mem_singleton.mpr rfl, hhas⟩
    have hparsed : Document.ofContent unit (editedAtRest.vault.contents
        (Path.location ⟨"/u.json"⟩)) = .ok [("a", .integer 2), ("b", .integer 2)] := rfl
    obtain rfl := Except.ok.inj (hparsed.symm.trans hd)
    obtain ⟨e, _, hholds, _, hentries⟩ := hleft (fun n _ v hv => by
        have hmem := Bindings.mem_of_get? hv
        simp only [List.mem_cons, List.not_mem_nil, or_false, Prod.mk.injEq] at hmem
        rcases hmem with ⟨_, rfl⟩ | ⟨_, rfl⟩ <;> rfl) (Origin.Plain.of_text (by decide +kernel))
    refine ⟨e, ?_, ?_, ?_⟩
    · rcases hholds with htext | ⟨hsame, rfl⟩
      · exact htext
      · exact hsame
    · exact hentries ⟨0, "a", ⟨0, 0⟩⟩ _ ⟨by decide +kernel, rfl⟩ rfl rfl
    · exact hentries ⟨0, "b", ⟨1, 0⟩⟩ _ ⟨by decide +kernel, rfl⟩ rfl rfl

/-- **An edit of a component that was not reloaded is taken back.** Both components of
the unit had been edited, one was reloaded, and the save has written the old value
of the other one. -/
theorem reload_takes_back_edit :
    let reloaded := (editedAtRest.reinit 0 ["a"] true).2
    let saved := (reloaded.save 0).2
    editedAtRest.Reachable Action.OnePool ∧ 0 ∈ editedAtRest.live ∧ editedAtRest.AtRest 0 ∧
      editedAtRest.unitOf? 0 "b" = some ⟨"/u.json"⟩ ∧
      (editedAtRest.reinit 0 ["a"] true).1 = .ok () ∧ (reloaded.save 0).1 = .ok () ∧
      editedAtRest.vault.contents (Path.location ⟨"/u.json"⟩)
        = some (Document.serialize [("a", .integer 2), ("b", .integer 2)]) ∧
      saved.vault.contents (Path.location ⟨"/u.json"⟩)
        = some (Document.serialize [("a", .integer 2), ("b", .integer 1)]) :=
  ⟨editedAtRest_reachable, by decide +kernel, editedAtRest_atRest, by decide +kernel,
    by decide +kernel, by decide +kernel, by decide +kernel, by decide +kernel⟩

end Workspace

end ScopedState
