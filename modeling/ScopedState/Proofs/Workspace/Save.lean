/-
`Proofs/Workspace/Save.lean` -- what a save that goes well has done.

A scope and those below it may share units. Each of them stages its states for a
unit on the document that is remembered when the save begins, and the writes
are carried out later, children first, each on top of what the others have
left. What comes out is one merge: every unit says what it would say if all
states of all scopes had been merged into the remembered document at once.

Two documents say the same when they are equal as JSON values, and that is all
that staging looks at. So a value that only differs from the remembered one in
how it is written, such as `-0.0` in the place of `0.0`, may stay as it was: a
unit is written as the text of some document that says what it should. And a
unit that says what it should is not written at all.
-/
import Mathlib.Data.List.Basic
import ScopedState.Backing.Memory
import ScopedState.Proofs.Storage.Merging
import ScopedState.Proofs.Workspace.Coherent
set_option autoImplicit false

namespace ScopedState

open Bindings (Sorted get?)

variable {β δ : Type}

namespace Workspace

/-! ## 1. What should be stored -/

/-- The state of a component of a scope, as it is stored. -/
def storedState (w : Workspace β δ) (s : Scope) (component : ComponentId) : Option Json :=
  ((w.vault.component? component).bind Component.value).map
    (Substitutor.collapseWith (s.substitutor.map Substitutor.table))

/-- The states of the components that a scope keeps at a location. -/
def statesAt (w : Workspace β δ) (l : Location) (id : ScopeId) : States :=
  (w.scope? id).elim [] fun s =>
    (s.components.filter fun c => w.vault.location? c.2.storage = some l).map fun c =>
      (c.1, w.storedState s c.2.component)

/-- **What should be stored** at a location: the document with the states of a
scope and of all below it merged in. -/
def saved (w : Workspace β δ) (root : ScopeId) (l : Location) (d : Document) : Document :=
  d.mergeAll ((w.tree root).scopes.map (w.statesAt l))

/-- Whether no two scopes of a tree keep a component of one name at one
location. -/
def Disjoint (w : Workspace β δ) (root : ScopeId) : Prop :=
  ∀ id ∈ (w.tree root).scopes, ∀ id' ∈ (w.tree root).scopes, ∀ n u u',
    w.unitOf? id n = some u → w.unitOf? id' n = some u' → u.location = u'.location → id = id'

/-- The names of the components of a scope. -/
def names (w : Workspace β δ) (id : ScopeId) : List String := (w.scope? id).elim [] Scope.names

/-- It is enough that no two scopes have components of one name. -/
theorem disjoint_of_names {w : Workspace β δ} {root : ScopeId}
    (h : ∀ id ∈ (w.tree root).scopes, ∀ id' ∈ (w.tree root).scopes, ∀ n ∈ w.names id,
      n ∈ w.names id' → id = id') : w.Disjoint root := by
  have hnames : ∀ {id n u}, w.unitOf? id n = some u → n ∈ w.names id := by
    intro id n u hu
    obtain ⟨e, hentry, _⟩ := Option.bind_eq_some_iff.mp hu
    obtain ⟨s, hs, he⟩ := Option.bind_eq_some_iff.mp hentry
    rw [names, hs]
    exact List.mem_map_of_mem (Bindings.mem_of_get? he)
  intro id hid id' hid' n u u' hu hu' _
  exact h id hid id' hid' n (hnames hu) (hnames hu')

section States

variable {w : Workspace β δ} {root id : ScopeId} {l : Location} {n : String}

/-- **The states at a location, name by name.** -/
theorem get?_statesAt (h : w.Kept) {s : Scope} (hs : w.scope? id = some s) (l : Location)
    (n : String) :
    get? (w.statesAt l id) n = ((get? s.components n).filter fun e =>
        w.vault.location? e.storage = some l).map fun e => w.storedState s e.component := by
  rw [statesAt, hs, Option.elim_some,
    Bindings.get?_mapEntries _ (fun c : String × Entry => w.storedState s c.2.component),
    (h.scope hs).components.get?_filter]

theorem sorted_statesAt (h : w.Kept) (l : Location) (id : ScopeId) : Sorted (w.statesAt l id) := by
  unfold statesAt
  cases hs : w.scope? id with
  | none => exact Bindings.sorted_nil
  | some s =>
    exact ((h.scope hs).components.filter _).mapValues fun c => w.storedState s c.2.component

/-- A scope with a state at a location has a component of that name there. -/
theorem unitOf?_of_statesAt (h : w.Kept) {x : Option Json}
    (hx : get? (w.statesAt l id) n = some x) : ∃ u, w.unitOf? id n = some u ∧ u.location = l := by
  cases hs : w.scope? id with
  | none =>
    rw [statesAt, hs] at hx
    cases hx
  | some s =>
    rw [get?_statesAt h hs, Option.map_eq_some_iff] at hx
    obtain ⟨e, he, _⟩ := hx
    rw [Option.filter_eq_some_iff] at he
    obtain ⟨hentry, hlocation⟩ := he
    obtain ⟨u, hu, hul⟩ := Option.map_eq_some_iff.mp (of_decide_eq_true hlocation)
    refine ⟨u, ?_, hul⟩
    rw [unitOf?, hs, Option.bind_some, hentry, Option.bind_some]
    exact hu

/-- The states of all scopes of a tree are consistent. -/
theorem consistent_statesAt (h : w.Kept) (hdisjoint : w.Disjoint root) (l : Location) :
    Consistent ((w.tree root).scopes.map (w.statesAt l)) := by
  intro s hs t ht n x y hx hy
  obtain ⟨id, hid, rfl⟩ := List.mem_map.mp hs
  obtain ⟨id', hid', rfl⟩ := List.mem_map.mp ht
  obtain ⟨u, hu, hul⟩ := unitOf?_of_statesAt h hx
  obtain ⟨u', hu', hul'⟩ := unitOf?_of_statesAt h hy
  have hsame := hdisjoint id hid id' hid' n u u' hu hu' (hul.trans hul'.symm)
  rw [← hsame, hx] at hy
  exact Option.some.inj hy

theorem sorted_saved {d : Document} (hd : Sorted d) : Sorted (w.saved root l d) :=
  Document.sorted_mergeAll hd _

/-- **What should be stored, name by name.** -/
theorem get?_saved (h : w.Kept) (d : Document) :
    get? (w.saved root l d) n
      = overwriteAll ((w.tree root).scopes.map (w.statesAt l)) (get? d) n := by
  refine Document.get?_mergeAll (fun states hstates => ?_) d n
  obtain ⟨j, _, rfl⟩ := List.mem_map.mp hstates
  exact sorted_statesAt h l j

/-- A name that a scope has at a location has its state there. -/
theorem get?_saved_of_mem (h : w.Kept)
    (hconsistent : Consistent ((w.tree root).scopes.map (w.statesAt l)))
    (hid : id ∈ (w.tree root).scopes) {d : Document} {x : Option Json}
    (hx : get? (w.statesAt l id) n = some x) : get? (w.saved root l d) n = x := by
  rw [get?_saved h]
  exact overwriteAll_of_mem hconsistent (List.mem_map_of_mem hid) hx

/-- A name that no scope has there keeps its entry. -/
theorem get?_saved_of_none (h : w.Kept) {d : Document}
    (hnone : ∀ id ∈ (w.tree root).scopes, get? (w.statesAt l id) n = none) :
    get? (w.saved root l d) n = get? d n := by
  rw [get?_saved h]
  refine overwriteAll_of_none fun states hstates => ?_
  obtain ⟨j, hj, rfl⟩ := List.mem_map.mp hstates
  exact hnone j hj

end States

/-! ## 2. What is staged -/

section Staging

variable [Backing β] [LawfulBacking β] [DecidableEq δ] [Digest δ] {w : Workspace β δ}
  {id : ScopeId} {s : Scope} {l : Location} {u : Path} {k : StorageId}

omit [DecidableEq δ] [Backing β] [LawfulBacking β] [Digest δ] in
/-- No two storages in use are about one location. -/
def Apart (w : Workspace β δ) : Prop :=
  ∀ k k' l, w.inUse k = true → w.inUse k' = true → w.vault.location? k = some l →
    w.vault.location? k' = some l → k = k'

omit [DecidableEq δ] [Backing β] [LawfulBacking β] [Digest δ] in
theorem Pooled.apart (h : w.Pooled) : w.Apart := fun _ _ _ hk hk' => h.unique hk hk'

omit [DecidableEq δ] in
theorem Coherent.apart (h : w.Coherent) : w.Apart := h.onPool.apart

omit [DecidableEq δ] [Backing β] [LawfulBacking β] [Digest δ] in
/-- In a scope in use the components in a storage are those at its location. -/
theorem storage_eq_iff_location (hkept : w.Kept) (hapart : w.Apart) (hid : id ∈ w.live)
    (hs : w.scope? id = some s) (hk : get? s.storages l = some (u, k)) {n : String} {e : Entry}
    (he : get? s.components n = some e) :
    e.storage = k ↔ w.vault.location? e.storage = some l := by
  have hmapped := hkept.scope hs
  have hlocated := hmapped.located l u k hk
  have hinUse : ∀ l u k, get? s.storages l = some (u, k) → w.inUse k = true := fun l u k hk =>
    (inUse_iff w k).mpr (Or.inl ⟨id, hid, s, hs, l, u, Bindings.mem_of_get? hk⟩)
  constructor
  · rintro rfl
    exact hlocated
  · intro hl
    obtain ⟨l', u', hk'⟩ := hmapped.mapped n e he
    exact hapart _ _ l (hinUse l' u' _ hk') (hinUse l u k hk) hl hlocated

omit [DecidableEq δ] [Backing β] [LawfulBacking β] [Digest δ] in
/-- **What a scope stages for a unit** are its states at the location. -/
theorem collect_slotAt (hkept : w.Kept) (hapart : w.Apart) (hid : id ∈ w.live)
    (hs : w.scope? id = some s) (hk : get? s.storages l = some (u, k)) {states : States}
    (h : ScopeSession.collect (s.substitutor.map Substitutor.table) w.vault
      (w.slotAt s (u, k)).components = .ok states) : states = w.statesAt l id := by
  have hcomponents := (hkept.scope hs).components
  have hsame : (s.components.filter fun c => c.2.storage = k)
      = s.components.filter fun c => w.vault.location? c.2.storage = some l := by
    refine List.filter_congr fun c hc => ?_
    have he := hcomponents.get?_of_mem (k := c.1) (v := c.2) hc
    exact decide_eq_decide.mpr (storage_eq_iff_location hkept hapart hid hs hk he)
  have hsorted : Sorted (w.slotAt s (u, k)).components :=
    (hcomponents.filter _).mapValues fun c => c.2.component
  rw [ScopeSession.collect_eq hsorted h, statesAt, hs, Option.elim_some, ← hsame, slotAt,
    List.map_map]
  rfl

/-- A tree that is staged without complaint: a scope in use, where every component
of the scope and of those below it tells its state and nothing that has to be
written is read-only. -/
structure Stages (w : Workspace β δ) (root : ScopeId) : Prop where
  kept : w.Kept
  apart : w.Apart
  live : ∀ id ∈ (w.tree root).scopes, id ∈ w.live
  staged : ∀ id ∈ (w.tree root).scopes, ((w.openScope id).save w.vault).outcome = .ok () ∧
    ((w.openScope id).save w.vault).readOnly = []

/-- A tree that is saved: a coherent workspace with a scope in use, where every
component of the scope and of those below it tells its state and nothing that
has to be written is read-only. -/
structure Saving (w : Workspace β δ) (root : ScopeId) : Prop where
  kept : w.Kept
  coherent : w.Coherent
  live : ∀ id ∈ (w.tree root).scopes, id ∈ w.live
  staged : ∀ id ∈ (w.tree root).scopes, ((w.openScope id).save w.vault).outcome = .ok () ∧
    ((w.openScope id).save w.vault).readOnly = []

theorem Saving.stages {root : ScopeId} (h : w.Saving root) : w.Stages root :=
  ⟨h.kept, h.coherent.apart, h.live, h.staged⟩

omit [LawfulBacking β] in
/-- A tree that has just been saved was staged without complaint, and no write
was refused. -/
theorem stages_of_save {root : ScopeId} (hkept : w.Kept) (hclosed : w.Closed) (hapart : w.Apart)
    (hroot : root ∈ w.live) (hok : (w.save root).1 = .ok ()) :
    w.Stages root ∧
      (w.save root).2 = { w with vault := Turn.perform (w.stagedOn root w.vault).writes w.vault } ∧
      ∀ turn ∈ Turn.all (w.stagedOn root w.vault).writes w.vault, turn.answer = .ok () := by
  rcases w.save_cases root with ⟨hout, houtcome⟩ | ⟨_, hfailed⟩
  · obtain ⟨hstaged, hturns⟩ := houtcome hok
    exact ⟨⟨hkept, hapart, hclosed.tree hroot, fun id hid =>
      hstaged id ((ScopeTree.mem_postorder _ id).mpr hid)⟩, hout, hturns⟩
  · exact absurd hok hfailed

/-- A scope of a tree maps a location to a storage. -/
def Maps (w : Workspace β δ) (root : ScopeId) (id : ScopeId) (l : Location) (k : StorageId) :
    Prop :=
  id ∈ (w.tree root).scopes ∧ ∃ s u, w.scope? id = some s ∧ get? s.storages l = some (u, k)

variable {root id' : ScopeId} {l' : Location} {k' : StorageId}

omit [DecidableEq δ] [Backing β] [LawfulBacking β] [Digest δ] in
theorem Maps.location (hkept : w.Kept) (h : w.Maps root id l k) :
    w.vault.location? k = some l := by
  obtain ⟨_, s, u, hs, hk⟩ := h
  exact (hkept.scope hs).located l u k hk

omit [LawfulBacking β] in
theorem Maps.inUse (h : w.Stages root) (hmaps : w.Maps root id l k) : w.inUse k = true := by
  obtain ⟨hid, s, u, hs, hk⟩ := hmaps
  exact (inUse_iff w k).mpr (Or.inl ⟨id, h.live id hid, s, hs, l, u, Bindings.mem_of_get? hk⟩)

omit [LawfulBacking β] in
/-- **One location, one storage.** -/
theorem Maps.storage_eq (h : w.Stages root) (hmaps : w.Maps root id l k)
    (hmaps' : w.Maps root id' l k') : k' = k :=
  h.apart k' k l (hmaps'.inUse h) (hmaps.inUse h)
    (hmaps'.location h.kept) (hmaps.location h.kept)

omit [LawfulBacking β] in
/-- A scope with a state at a location maps the location. -/
theorem maps_of_statesAt (h : w.Stages root) (hid : id ∈ (w.tree root).scopes) {n : String}
    {x : Option Json} (hx : get? (w.statesAt l id) n = some x) : ∃ k, w.Maps root id l k := by
  cases hs : w.scope? id with
  | none =>
    rw [statesAt, hs] at hx
    cases hx
  | some s =>
    rw [get?_statesAt h.kept hs, Option.map_eq_some_iff] at hx
    obtain ⟨e, he, _⟩ := hx
    rw [Option.filter_eq_some_iff] at he
    obtain ⟨hentry, hlocation⟩ := he
    obtain ⟨l₁, u, hk⟩ := (h.kept.scope hs).mapped n e hentry
    have hl := (h.kept.scope hs).located l₁ u _ hk
    rw [of_decide_eq_true hlocation] at hl
    refine ⟨e.storage, hid, s, u, hs, ?_⟩
    rw [Option.some.inj hl]
    exact hk

omit [Backing β] [LawfulBacking β] in
/-- **What a scope wants to write** is what there is to write for each of its
units, if every component tells its state. -/
theorem wanted_openScope (hkept : w.Kept) (hapart : w.Apart) (hid : id ∈ w.live)
    (hs : w.scope? id = some s)
    (htells : (w.openScope id).layout.all
      (ScopeSession.tells (w.openScope id).macros w.vault) = true) :
    (w.openScope id).wanted w.vault
      = s.storages.filterMap fun e => w.vault.stage e.2.2 (w.statesAt e.1 id) := by
  unfold ScopeSession.wanted
  simp only [openScope, hs, layout_eq] at htells ⊢
  rw [List.filterMap_map]
  refine List.filterMap_congr fun e he => ?_
  have hslot := List.all_eq_true.mp htells _ (List.mem_map_of_mem he)
  cases hcollect : ScopeSession.collect (s.substitutor.map Substitutor.table) w.vault
      (w.slotAt s e.2).components with
  | error e =>
    rw [ScopeSession.tells, hcollect] at hslot
    cases hslot
  | ok states =>
    obtain ⟨l, u, k⟩ := e
    have hk : get? s.storages l = some (u, k) := (hkept.scope hs).storages.get?_of_mem he
    rw [Function.comp_apply, ScopeSession.slotWrite, ScopeSession.stageSlot, hcollect,
      collect_slotAt hkept hapart hid hs hk hcollect]
    rfl

omit [LawfulBacking β] in
/-- **What a scope of the tree has to write** is all that it wants to: every
component tells its state, and nothing is read-only. -/
theorem due_openScope (h : w.Stages root) (hid : id ∈ (w.tree root).scopes)
    (hs : w.scope? id = some s) :
    (w.openScope id).due w.vault
      = s.storages.filterMap fun e => w.vault.stage e.2.2 (w.statesAt e.1 id) := by
  have hopen := w.openScope_isOpen id
  obtain ⟨houtcome, hreadOnly⟩ := h.staged id hid
  have htells := (ScopeSession.save_of_open hopen w.vault).2.2.1.mp houtcome
  rw [ScopeSession.due_eq_wanted hopen houtcome hreadOnly,
    wanted_openScope h.kept h.apart (h.live id hid) hs htells]

omit [Backing β] [LawfulBacking β] [DecidableEq δ] [Digest δ] in
/-- A scope that is there is opened under its name. -/
theorem name_openScope (hs : w.scope? id = some s) : (w.openScope id).name = w.nameOf id := by
  rw [nameOf, openScope, hs]
  rfl

omit [LawfulBacking β] in
/-- **The writes of a save** are what is staged, for every scope of the tree and
every unit it maps, to persist its states there. -/
theorem mem_writes_iff (h : w.Stages root) (x : String × StagedWrite δ) :
    x ∈ (w.stagedOn root w.vault).writes ↔
      ∃ id l k, w.Maps root id l k ∧ w.vault.stage k (w.statesAt l id) = some x.2 ∧
        x.1 = w.nameOf id := by
  rw [(w.stagedOn_spec root w.vault).2, List.mem_flatMap]
  constructor
  · rintro ⟨id, hid, hx⟩
    have hid := (ScopeTree.mem_postorder _ id).mp hid
    obtain ⟨write, hwrite, rfl⟩ := List.mem_map.mp hx
    cases hs : w.scope? id with
    | none =>
      unfold openScope at hwrite
      rw [hs] at hwrite
      cases hwrite
    | some s =>
      rw [due_openScope h hid hs] at hwrite
      obtain ⟨⟨l, u, k⟩, hmem, hstage⟩ := List.mem_filterMap.mp hwrite
      exact ⟨id, l, k, ⟨hid, s, u, hs, (h.kept.scope hs).storages.get?_of_mem hmem⟩, hstage,
        name_openScope hs⟩
  · rintro ⟨id, l, k, ⟨hid, s, u, hs, hk⟩, hstage, hname⟩
    refine ⟨id, (ScopeTree.mem_postorder _ id).mpr hid, List.mem_map.mpr ⟨x.2, ?_, ?_⟩⟩
    · rw [due_openScope h hid hs]
      exact List.mem_filterMap.mpr ⟨_, Bindings.mem_of_get? hk, hstage⟩
    · exact Prod.ext ((name_openScope hs).trans hname.symm) rfl

end Staging

/-! ## 3. One unit -/

section Units

variable [Backing β] [LawfulBacking β] [DecidableEq δ] [Digest δ] {w : Workspace β δ}
  {root id : ScopeId} {l : Location} {k : StorageId} {s : Storage δ}

omit [LawfulBacking β] in
/-- **A unit that says what it should** needs no write of any scope. -/
theorem redundant_of_same (h : w.Stages root)
    (hconsistent : Consistent ((w.tree root).scopes.map (w.statesAt l)))
    (hmaps : w.Maps root id l k) {content : Option Bytes}
    (hdescribes : s.snapshot.Describes content)
    (hsame : (w.saved root l s.snapshot.document).same s.snapshot.document = true) :
    s.snapshot.Redundant (w.statesAt l id) := by
  have hstates := sorted_statesAt h.kept l id
  have hsaved : Sorted (w.saved root l s.snapshot.document) := sorted_saved hdescribes.sorted
  have hthere : ∀ n state, get? (w.statesAt l id) n = some state →
      Json.sameOption state (get? s.snapshot.document n) = true := by
    intro n state hn
    have hname := (Document.same_iff hsaved hdescribes.sorted).mp hsame n
    rwa [get?_saved_of_mem h.kept hconsistent hmaps.1 hn] at hname
  exact Snapshot.redundant_of_same hdescribes.hash hdescribes.absent
    ((Document.same_merge_iff hdescribes.sorted hstates).mpr hthere)

omit [DecidableEq δ] [Backing β] [LawfulBacking β] [Digest δ] in
theorem unit_of_maps (hkept : w.Kept) (hmaps : w.Maps root id l k)
    (hs : w.vault.storage? k = some s) : s.unit.location = l :=
  Option.some.inj ((Vault.location?_of_unit? (Vault.unit?_of_storage? hs)).symm.trans
    (hmaps.location hkept))

omit [LawfulBacking β] in
/-- The writes of a save that are for a location are for the storage that is
mapped there. -/
theorem write_at (h : w.Stages root) {x : String × StagedWrite δ}
    (hx : x ∈ (w.stagedOn root w.vault).writes) :
    ∃ id l, w.Maps root id l x.2.storage ∧ x.2.unit.location = l ∧
      w.vault.stage x.2.storage (w.statesAt l id) = some x.2 := by
  obtain ⟨id, l, k, hmaps, hstage, _⟩ := (mem_writes_iff h x).mp hx
  obtain ⟨hstorage, hunit⟩ := Vault.unit?_of_stage hstage
  have hl := (Vault.location?_of_unit? hunit).symm.trans (hmaps.location h.kept)
  rw [← hstorage] at hmaps hstage
  exact ⟨id, l, hmaps, Option.some.inj hl, hstage⟩

omit [LawfulBacking β] in
/-- **The writes for one storage** are what scopes of the tree have staged on what
is remembered of its unit, and the others are for other locations. -/
theorem write_for (h : w.Stages root) (hmaps : w.Maps root id s.unit.location k)
    (hs : w.vault.storage? k = some s) {x : String × StagedWrite δ}
    (hx : x ∈ (w.stagedOn root w.vault).writes) :
    (x.2.storage = k → ∃ j draft, w.Maps root j s.unit.location k ∧
        s.snapshot.stage (w.statesAt s.unit.location j) = some draft ∧
        x.2 = ⟨k, s.unit, draft⟩) ∧
      (x.2.storage ≠ k → x.2.unit.location ≠ s.unit.location) := by
  obtain ⟨j, l, hmaps', hl, hstage⟩ := write_at h hx
  refine ⟨fun hk => ?_, fun hk hsame => ?_⟩
  · rw [hk] at hmaps' hstage
    obtain rfl := unit_of_maps h.kept hmaps' hs
    rw [Vault.stage, hs] at hstage
    obtain ⟨draft, hdraft, hx'⟩ := Option.map_eq_some_iff.mp hstage
    exact ⟨j, draft, hmaps', hdraft, hx'.symm⟩
  · rw [hsame] at hl
    subst hl
    exact hk (hmaps.storage_eq h hmaps')

omit [LawfulBacking β] in
/-- What a scope stages for a unit it maps is among the writes. -/
theorem write_mem (h : w.Stages root) (hmaps : w.Maps root id l k)
    (hs : w.vault.storage? k = some s) {draft : Draft δ}
    (hstage : s.snapshot.stage (w.statesAt l id) = some draft) :
    (w.nameOf id, ⟨k, s.unit, draft⟩) ∈ (w.stagedOn root w.vault).writes := by
  have hvault : w.vault.stage k (w.statesAt l id) = some ⟨k, s.unit, draft⟩ := by
    rw [Vault.stage, hs]
    simp only [hstage, Option.map_some]
  exact (mem_writes_iff h _).mpr ⟨id, l, k, hmaps, hvault, rfl⟩

/-- **A unit that no scope has anything to write for is not written.** -/
theorem contents_of_idle (h : w.Stages root)
    (hidle : ∀ id k s, w.Maps root id l k → w.vault.storage? k = some s →
      s.snapshot.stage (w.statesAt l id) = none) :
    (Turn.perform (w.stagedOn root w.vault).writes w.vault).contents l = w.vault.contents l := by
  refine Turn.contents_perform_other fun x hx hl => ?_
  obtain ⟨id, l', hmaps, hl', hstage⟩ := write_at h hx
  rw [hl] at hl'
  subst hl'
  -- A write for the location would have been staged by some scope.
  cases hs : w.vault.storage? x.2.storage with
  | none =>
    rw [Vault.stage, hs] at hstage
    cases hstage
  | some s =>
    rw [Vault.stage, hs] at hstage
    simp only [hidle id _ s hmaps hs, Option.map_none] at hstage
    cases hstage

/-- **A unit that says what it should is not written.** -/
theorem contents_of_same (h : w.Stages root)
    (hconsistent : Consistent ((w.tree root).scopes.map (w.statesAt l)))
    (hmaps : w.Maps root id l k) (hs : w.vault.storage? k = some s) {content : Option Bytes}
    (hdescribes : s.snapshot.Describes content)
    (hsame : (w.saved root l s.snapshot.document).same s.snapshot.document = true) :
    (Turn.perform (w.stagedOn root w.vault).writes w.vault).contents l = w.vault.contents l := by
  refine contents_of_idle h fun id' k' s' hmaps' hs' => ?_
  obtain rfl := hmaps.storage_eq h hmaps'
  obtain rfl := Option.some.inj (hs.symm.trans hs')
  exact Snapshot.stage_eq_none_iff.mpr
    (Or.inl (redundant_of_same h hconsistent hmaps' hdescribes hsame))

/-- A unit before a save, and the names that the scopes of the tree have there. -/
def originAt (w : Workspace β δ) (root : ScopeId) (l : Location) (d : Document) : Origin :=
  { content := w.vault.contents l
    document := d
    owned := fun n => ∃ id ∈ (w.tree root).scopes, (get? (w.statesAt l id) n).isSome = true }

/-- The scopes of a tree that have nothing to write for a unit. -/
def idle (w : Workspace β δ) (root : ScopeId) (l : Location) (s : Snapshot δ) : List States :=
  ((w.tree root).scopes.filter fun id => (s.stage (w.statesAt l id)).isNone).map (w.statesAt l)

omit [LawfulBacking β] in
/-- **A scope of the tree has nothing to write for a unit, or its states are among
those that are written.** -/
theorem stage_or_write (h : w.Stages root) (hmaps : w.Maps root id l k)
    (hs : w.vault.storage? k = some s) {content : Option Bytes}
    (hdescribes : s.snapshot.Describes content) {j : ScopeId} (hj : j ∈ (w.tree root).scopes) :
    s.snapshot.stage (w.statesAt l j) = none ∨
      w.statesAt l j ∈ statesFor k (w.stagedOn root w.vault).writes := by
  by_cases hsome : ∃ n x, get? (w.statesAt l j) n = some x
  · -- The scope maps the location, to the one storage there, so its write is among them.
    obtain ⟨n, x, hx⟩ := hsome
    obtain ⟨k', hmaps'⟩ := maps_of_statesAt h hj hx
    rw [hmaps.storage_eq h hmaps'] at hmaps'
    cases hstage : s.snapshot.stage (w.statesAt l j) with
    | none => exact Or.inl rfl
    | some draft =>
      have hwrite := write_mem h hmaps' hs hstage
      refine Or.inr (List.mem_map.mpr ⟨_, List.mem_filter.mpr ⟨hwrite, decide_eq_true rfl⟩, ?_⟩)
      rw [(Snapshot.stage_eq_some hstage).1]
      rfl
  · -- A scope without a state there has nothing to say.
    refine Or.inl (Snapshot.stage_eq_none_iff.mpr (Or.inl ?_))
    refine Snapshot.redundant_of_same hdescribes.hash hdescribes.absent ?_
    refine (Document.same_merge_iff hdescribes.sorted (sorted_statesAt h.kept l j)).mpr ?_
    exact fun n x hx => absurd ⟨n, x, hx⟩ hsome

omit [LawfulBacking β] in
/-- **What the scopes with nothing to write say, and what is written**, are the
states of all scopes, taken together. -/
theorem overwriteAll_idle_writes (h : w.Stages root)
    (hconsistent : Consistent ((w.tree root).scopes.map (w.statesAt l)))
    (hmaps : w.Maps root id l k) (hs : w.vault.storage? k = some s) {content : Option Bytes}
    (hdescribes : s.snapshot.Describes content) (n : String) :
    overwriteAll (statesFor k (w.stagedOn root w.vault).writes)
        (overwriteAll (w.idle root l s.snapshot) (get? s.snapshot.document)) n
      = get? (w.saved root l s.snapshot.document) n := by
  obtain rfl := unit_of_maps h.kept hmaps hs
  rw [← overwriteAll_append, get?_saved h.kept]
  refine overwriteAll_congr hconsistent (fun states hstates => ?_)
    fun states hstates x hx => ?_
  -- Each list of states is that of some scope of the tree.
  · rcases List.mem_append.mp hstates with hidle | hwritten
    · obtain ⟨j, hj, rfl⟩ := List.mem_map.mp hidle
      exact List.mem_map_of_mem (List.mem_filter.mp hj).1
    · obtain ⟨write, hwrite, rfl⟩ := List.mem_map.mp hwritten
      obtain ⟨hwrite, hk⟩ := List.mem_filter.mp hwrite
      obtain ⟨j, draft, hmaps', hstage, hwrite'⟩ :=
        (write_for h hmaps hs hwrite).1 (of_decide_eq_true hk)
      rw [hwrite', (Snapshot.stage_eq_some hstage).1]
      exact List.mem_map_of_mem hmaps'.1
  · obtain ⟨j, hj, rfl⟩ := List.mem_map.mp hstates
    rcases stage_or_write h hmaps hs hdescribes hj with hnone | hwritten
    · refine List.mem_append_left _ (List.mem_map_of_mem (List.mem_filter.mpr ⟨hj, ?_⟩))
      exact Option.isNone_iff_eq_none.mpr hnone
    · exact List.mem_append_right _ hwritten

/-- The scopes with nothing to write say what they have to say, without a
write. -/
theorem tracks_idle (hkept : w.Kept) (hfaithful : Digest.Faithful δ)
    (hdescribes : s.snapshot.Describes (w.vault.contents s.unit.location))
    (hplain : (w.originAt root s.unit.location s.snapshot.document).Plain) :
    Tracks (w.originAt root s.unit.location s.snapshot.document) false
      (overwriteAll (w.idle root s.unit.location s.snapshot) (get? s.snapshot.document))
      (w.vault.contents s.unit.location) s.snapshot := by
  have hstart := Tracks.of_describes hdescribes
    (w.originAt root s.unit.location s.snapshot.document).owned
  refine hstart.nothing_due_all hfaithful hplain fun states hstates => ?_
  obtain ⟨j, hj, rfl⟩ := List.mem_map.mp hstates
  obtain ⟨hj, hnone⟩ := List.mem_filter.mp hj
  exact ⟨sorted_statesAt hkept _ j, fun n hn => ⟨j, hj, hn⟩, Option.isNone_iff_eq_none.mp hnone⟩

/-- The writes for a storage were staged on what is remembered of its unit, and
the others are for other units. -/
theorem from_of_write (h : w.Stages root) (hmaps : w.Maps root id s.unit.location k)
    (hs : w.vault.storage? k = some s)
    (hdescribes : s.snapshot.Describes (w.vault.contents s.unit.location))
    {x : String × StagedWrite δ} (hx : x ∈ (w.stagedOn root w.vault).writes) :
    (x.2.storage = k → x.2.unit = s.unit ∧
        x.2.draft.From (w.originAt root s.unit.location s.snapshot.document) false) ∧
      (x.2.storage ≠ k → x.2.unit.location ≠ s.unit.location) := by
  obtain ⟨hmine, hother⟩ := write_for h hmaps hs hx
  refine ⟨fun hk => ?_, hother⟩
  obtain ⟨j, draft, hmaps', hstage, hx'⟩ := hmine hk
  have himages := (Tracks.of_describes hdescribes
    (w.originAt root s.unit.location s.snapshot.document).owned).images
  rw [hx']
  exact ⟨rfl, himages.stage (sorted_statesAt h.kept _ j) (fun n hn => ⟨j, hmaps'.1, hn⟩) hstage⟩

/-- **A unit that does not say what it should is written once**, so to speak: in
the end it has the text of a document that says what it should, and the
entries that no scope has a component for are the ones that were remembered. -/
theorem contents_of_changed (h : w.Stages root) (hfaithful : Digest.Faithful δ)
    (hconsistent : Consistent ((w.tree root).scopes.map (w.statesAt l)))
    (hmaps : w.Maps root id l k) (hs : w.vault.storage? k = some s)
    (hdescribes : s.snapshot.Describes (w.vault.contents l))
    (hok : ∀ t ∈ Turn.all (w.stagedOn root w.vault).writes w.vault, t.answer = .ok ())
    (hchanged : (w.saved root l s.snapshot.document).same s.snapshot.document = false)
    (hplain : (w.originAt root l s.snapshot.document).Plain) :
    ∃ e : Document, Sorted e ∧
      (Turn.perform (w.stagedOn root w.vault).writes w.vault).contents l = some e.serialize ∧
      e.same (w.saved root l s.snapshot.document) = true ∧
      ∀ n, (∀ id ∈ (w.tree root).scopes, get? (w.statesAt l id) n = none) →
        get? e n = get? s.snapshot.document n := by
  obtain rfl := unit_of_maps h.kept hmaps hs
  have hsorted := hdescribes.sorted
  -- First the scopes with nothing to write, then the writes of the others.
  obtain ⟨started, s', _, _, himages', e, he, _, hholds, hagrees, hmeets⟩ := Tracks.perform
    hfaithful (hplain.legible hsorted) hs (tracks_idle h.kept hfaithful hdescribes hplain)
    (fun x hx => from_of_write h hmaps hs hdescribes hx) hok
  have hunowned : ∀ n, (∀ id ∈ (w.tree root).scopes,
      get? (w.statesAt s.unit.location id) n = none) →
        ¬ (w.originAt root s.unit.location s.snapshot.document).owned n := by
    rintro n hnone ⟨j, hj, hsome⟩
    rw [hnone j hj] at hsome
    cases hsome
  -- Name by name: owned names were tracked, the others have kept their entries.
  have hsaved : e.same (w.saved root s.unit.location s.snapshot.document) = true := by
    refine (Document.same_iff he (sorted_saved hsorted)).mpr fun n => ?_
    by_cases howned : (w.originAt root s.unit.location s.snapshot.document).owned n
    · rw [← overwriteAll_idle_writes h hconsistent hmaps hs hdescribes n]
      exact hmeets n howned
    · have hnone : get? (w.saved root s.unit.location s.snapshot.document) n
          = get? s.snapshot.document n := by
        refine get?_saved_of_none h.kept fun j hj => ?_
        exact Option.not_isSome_iff_eq_none.mp fun hsome => howned ⟨j, hj, hsome⟩
      rw [hnone, hagrees n howned]
      exact Json.sameOption_refl _
  refine ⟨e, he, ?_, hsaved, fun n hnone => hagrees n (hunowned n hnone)⟩
  rcases hholds with rfl | htext'
  · cases hstarted : started with
    | true => exact himages'.written hstarted
    | false =>
      -- Nothing has been written, though the unit did not say what it should.
      rw [(himages'.fresh hstarted).2] at hsaved
      have hsame : (w.saved root s.unit.location s.snapshot.document).same s.snapshot.document
          = true := Document.same_symm hsaved
      rw [hsame] at hchanged
      cases hchanged
  · exact htext'

/-- **A unit after a save** has the text of a document that says what it should, or is
as it was and says so already. -/
theorem exists_saved (h : w.Stages root) (hfaithful : Digest.Faithful δ)
    (hconsistent : Consistent ((w.tree root).scopes.map (w.statesAt l)))
    (hmaps : w.Maps root id l k) (hs : w.vault.storage? k = some s)
    (hdescribes : s.snapshot.Describes (w.vault.contents l))
    (hok : ∀ t ∈ Turn.all (w.stagedOn root w.vault).writes w.vault, t.answer = .ok ())
    (hplain : (w.originAt root l s.snapshot.document).Plain) :
    ∃ e : Document, Sorted e ∧
      ((Turn.perform (w.stagedOn root w.vault).writes w.vault).contents l = some e.serialize ∨
        (Turn.perform (w.stagedOn root w.vault).writes w.vault).contents l = w.vault.contents l ∧
          e = s.snapshot.document) ∧
      e.same (w.saved root l s.snapshot.document) = true ∧
      ∀ n, (∀ id ∈ (w.tree root).scopes, get? (w.statesAt l id) n = none) →
        get? e n = get? s.snapshot.document n := by
  cases hsame : (w.saved root l s.snapshot.document).same s.snapshot.document with
  | true =>
    have hunchanged := contents_of_same h hconsistent hmaps hs hdescribes hsame
    exact ⟨s.snapshot.document, hdescribes.sorted, Or.inr ⟨hunchanged, rfl⟩,
      Document.same_symm hsame, fun _ _ => rfl⟩
  | false =>
    obtain ⟨e, he, htext, hsaid, hothers⟩ := contents_of_changed h hfaithful hconsistent hmaps hs
      hdescribes hok hsame hplain
    exact ⟨e, he, Or.inl htext, hsaid, hothers⟩

end Units

/-! ## 4. Saving -/

section Saves

variable [Backing β] [LawfulBacking β] [DecidableEq δ] [Digest δ] {w : Workspace β δ}
  {root : ScopeId}

/-- **A save that goes well is one merge.** One caller has brought a workspace
about, all scopes draw from one pool, and no two scopes of a tree keep a
component of one name in one unit.

A unit that some scope of the tree maps is not touched if the document
remembered of it already says what it should. Otherwise it ends up as the text
of a document that says what it should, with the entries of names that no scope
has there as they were; provided that the bytes on disk are not the text of
some other document. No other unit changes.

The store is lawful. Files with units that are apart come to that too
(`exists_shelved`). -/
theorem save_merges_all (hfaithful : Digest.Faithful δ) (hw : w.Reachable Action.Alone)
    (hroot : root ∈ w.live) (hdisjoint : w.Disjoint root) (hok : (w.save root).1 = .ok ()) :
    (∀ id l k, w.Maps root id l k →
      let d := (w.vault.snapshot k).document
      let d' := w.saved root l d
      let before := w.vault.contents l
      let after := (w.save root).2.vault.contents l
      (d'.same d = true → after = before) ∧
        (d'.same d = false → (w.originAt root l d).Plain →
          ∃ e : Document, Sorted e ∧ after = some e.serialize ∧ e.same d' = true ∧
            ∀ n, (∀ j ∈ (w.tree root).scopes, get? (w.statesAt l j) n = none) →
              get? e n = get? d n)) ∧
      ∀ l, (∀ id k, ¬ w.Maps root id l k) →
        (w.save root).2.vault.contents l = w.vault.contents l := by
  obtain ⟨hkept, hclosed, hcoherent⟩ := hw.coherent
  rcases w.save_cases root with ⟨hout, houtcome⟩ | ⟨_, hfailed⟩
  · obtain ⟨hstaged, hturns⟩ := houtcome hok
    have h : w.Saving root := ⟨hkept, hcoherent, hclosed.tree hroot, fun id hid =>
      hstaged id ((ScopeTree.mem_postorder _ id).mpr hid)⟩
    rw [hout]
    refine ⟨fun id l k hmaps => ?_, fun l hunmapped => ?_⟩
    · obtain ⟨u, hu, _⟩ := Option.map_eq_some_iff.mp (hmaps.location hkept)
      obtain ⟨s, hs, _⟩ := Vault.unit?_eq_some hu
      have hdescribes := hcoherent.describes k s (hmaps.inUse h.stages) hs
      rw [unit_of_maps hkept hmaps hs] at hdescribes
      have hconsistent := consistent_statesAt hkept hdisjoint l
      rw [Vault.snapshot_eq hs]
      refine ⟨contents_of_same h.stages hconsistent hmaps hs hdescribes, fun hchanged hplain => ?_⟩
      exact contents_of_changed h.stages hfaithful hconsistent hmaps hs hdescribes hturns hchanged
        hplain
    · exact contents_of_idle h.stages fun id k s hmaps => absurd hmaps (hunmapped id k)
  · exact absurd hok hfailed

end Saves

/-! ## 5. Two scopes and one unit -/

/-- A scope and one below it get a component each in one unit. The first one is
saved with one value, and then both get new ones. -/
def sharedEvents (before after : Json) : List (Action Memory) :=
  [.addScope "root" none 0, .addScope "m" none 0, .attach 0, .list 0 1,
    .addComponent { name := "a" }, .addComponent { name := "b" },
    .register 0 0 "a" "/u.json", .register 1 1 "b" "/u.json",
    .edit 0 fun c => c.set before, .save 0,
    .edit 0 fun c => c.set after, .edit 1 fun c => c.set (.integer 3)]

/-- What they lead to. -/
def sharing (before after : Json) : Workspace Memory Bytes :=
  (start {}).run (sharedEvents before after)

theorem sharing_reachable {before after : Json}
    (h : (start {} : Workspace Memory Bytes).AllPossible (sharedEvents before after)) :
    (sharing before after).Reachable Action.Alone := by
  refine ⟨{}, steps_run (fun a ha => ?_) h⟩
  simp only [sharedEvents, List.mem_cons, List.not_mem_nil, or_false] at ha
  rcases ha with rfl | rfl | rfl | rfl | rfl | rfl | rfl | rfl | rfl | rfl | rfl | rfl <;>
    trivial

/-- The unit that both scopes have their component in. -/
def sharedUnit : Location := Path.location ⟨"/u.json"⟩

/-- Whether a scope maps a location to a storage can be looked up. -/
theorem maps_of_tree {w : Workspace β δ} {root id : ScopeId} {l : Location} {k : StorageId}
    (hid : id ∈ (w.tree root).scopes)
    (h : (((w.scope? id).bind fun s => get? s.storages l).map Prod.snd) = some k) :
    w.Maps root id l k := by
  obtain ⟨⟨u, k'⟩, hentry, rfl⟩ := Option.map_eq_some_iff.mp h
  obtain ⟨s, hs, hk⟩ := Option.bind_eq_some_iff.mp hentry
  exact ⟨hid, s, u, hs, hk⟩

/-- Saving writes the states of both scopes. -/
theorem save_merges_parent_and_child :
    ∃ e : Document, Sorted e ∧
      ((sharing (.integer 1) (.integer 2)).save 0).2.vault.contents sharedUnit
        = some e.serialize ∧
      e.same [("a", .integer 2), ("b", .integer 3)] = true := by
  have hmaps : (sharing (.integer 1) (.integer 2)).Maps 0 0 sharedUnit 0 :=
    maps_of_tree (by decide +kernel) (by decide +kernel)
  have hplain : ((sharing (.integer 1) (.integer 2)).originAt 0 sharedUnit
      [("a", .integer 1)]).Plain := Origin.Plain.of_text (by decide +kernel)
  have hreachable : (sharing (.integer 1) (.integer 2)).Reachable Action.Alone :=
    sharing_reachable (by decide +kernel)
  have hroot : 0 ∈ (sharing (.integer 1) (.integer 2)).live := by decide +kernel
  obtain ⟨hunits, _⟩ := save_merges_all Digest.faithful_bytes hreachable hroot
    (disjoint_of_names (by decide +kernel)) (by decide +kernel)
  obtain ⟨e, he, hcontents, hsame, _⟩ :=
    (hunits 0 sharedUnit 0 hmaps).2 (by decide +kernel) hplain
  exact ⟨e, he, hcontents, hsame⟩

/-- **A zero stays as it was written.** The scope above has `-0.0` in the place
of `0.0`, which is no reason to write it, and the write of the scope below
leaves it alone. -/
theorem zero_not_rewritten :
    let zeros := sharing (.float ⟨false, 0, -1074⟩) (.float ⟨true, 0, -1074⟩)
    let d' := zeros.saved 0 sharedUnit (zeros.vault.snapshot 0).document
    zeros.Reachable Action.Alone ∧ 0 ∈ zeros.live ∧ zeros.Disjoint 0 ∧
      zeros.Maps 0 0 sharedUnit 0 ∧ (zeros.save 0).1 = .ok () ∧
      d'.same (zeros.vault.snapshot 0).document = false ∧
      (zeros.save 0).2.vault.contents sharedUnit ≠ some d'.serialize :=
  ⟨sharing_reachable (by decide +kernel), by decide +kernel, disjoint_of_names (by decide +kernel),
    maps_of_tree (by decide +kernel) (by decide +kernel), by decide +kernel, by decide +kernel,
    by decide +kernel⟩

end Workspace

end ScopedState
