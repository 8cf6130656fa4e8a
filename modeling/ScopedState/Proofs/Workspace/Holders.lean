/-
`Proofs/Workspace/Holders.lean` -- who holds a storage, and which one.

A pool does not hold the storages that it knows. They are held by scopes in use, through
the units that these map and the components they have, by sessions, through their units,
and by staged writes, whether a session has staged them or somebody keeps them by
themselves. All of these say for themselves which unit they are about, so it has to be
shown that the storage is about no other one: scopes have it from the pool (`Kept`), and
sessions and writes, which may be about scopes that are long gone, from the scope or the
storage they were made for (`Labelled`).

Then whoever holds a storage for a location holds the one that the pool has there, and
the rest is told by the pool alone. It has no two entries for one location; the entries
whose storage is held count, one for each location that somebody holds a storage for, and
the others are replaced when their unit is asked for again. A unit that cannot be read
leaves no entry behind. So whatever storage there is was read when it came into the pool,
and the events that have led to a workspace tell when that was (`LoadedBy`).
-/
import Mathlib.Data.List.Induction
import ScopedState.Proofs.Workspace.Events
set_option autoImplicit false

namespace ScopedState

open Bindings (Sorted get?)

variable {β δ : Type}

/-! ## 1. Labels -/

/-- A session has its units and its staged writes under the units of their storages. -/
structure ScopeSession.Labelled (s : ScopeSession δ) (v : Vault β δ) : Prop where
  slots : ∀ slot ∈ s.layout, v.unit? slot.storage = some slot.unit
  writes : ∀ write ∈ s.staged, v.unit? write.storage = some write.unit

theorem ScopeSession.Labelled.of_keeps {s : ScopeSession δ} {v v' : Vault β δ}
    (h : s.Labelled v) (hkeeps : v.Keeps v') : s.Labelled v' :=
  ⟨fun slot hslot => hkeeps _ _ (h.slots slot hslot),
    fun write hwrite => hkeeps _ _ (h.writes write hwrite)⟩

namespace Workspace

variable {w w' : Workspace β δ}

/-- All sessions do. -/
def Labelled (w : Workspace β δ) : Prop := ∀ e ∈ w.sessions, ∀ s ∈ e.2.parts, s.Labelled w.vault

/-- A scope opens a session with the units of its storages. -/
theorem labelled_openScope (h : w.Kept) (id : ScopeId) : (w.openScope id).Labelled w.vault := by
  refine ⟨fun slot hslot => ?_, fun write hwrite => ?_⟩
  · obtain ⟨s, hs, ⟨l, u, k⟩, hmem, rfl⟩ := mem_layout_iff.mp hslot
    obtain ⟨st, hst, _⟩ := (h.scope hs).exists_storage ((h.scope hs).storages.get?_of_mem hmem)
    rw [slotAt, hst]
    exact Vault.unit?_of_storage? hst
  · rw [w.openScope_staged id] at hwrite
    cases hwrite

theorem labelled_startSave (h : w.Kept) (id : ScopeId) :
    ∀ s ∈ (w.startSave id).parts, s.Labelled w.vault := by
  intro s hs
  rw [startSave, (openTree_spec w (w.tree id)).2] at hs
  obtain ⟨j, _, rfl⟩ := List.mem_map.mp hs
  exact labelled_openScope h j

theorem labelled_loneWrite {v : Vault β δ} {write : StagedWrite δ}
    (h : v.unit? write.storage = some write.unit) :
    ∀ s ∈ (loneWrite write).parts, s.Labelled v := by
  intro s hs
  obtain rfl := List.mem_singleton.mp hs
  refine ⟨fun slot hslot => absurd hslot List.not_mem_nil, fun staged hstaged => ?_⟩
  rw [List.mem_singleton.mp hstaged]
  exact h

/-- The sessions that were there keep their labels; new ones have to be looked at. -/
theorem Labelled.of_sessions (h : w.Labelled) (hkeeps : w.vault.Keeps w'.vault)
    (hsessions : ∀ e ∈ w'.sessions, e ∈ w.sessions ∨ ∀ s ∈ e.2.parts, s.Labelled w'.vault) :
    w'.Labelled := by
  intro e he s hs
  rcases hsessions e he with he | hnew
  · exact (h e he s hs).of_keeps hkeeps
  · exact hnew s hs

section Happening

variable [Backing β] [DecidableEq δ] [Digest δ]

/-- **The calls on a session** keep its labels. -/
theorem labelled_calls {t : SessionTree (ScopeSession δ)} {p : Phase} (hp : t.Uniform p)
    {v : Vault β δ} (ht : ∀ s ∈ t.parts, s.Labelled v) :
    (∀ s ∈ (t.save v).session.parts, s.Labelled v) ∧
      (∀ s ∈ (t.finish v).session.parts, s.Labelled v) ∧
      ∀ s ∈ (t.reset v).session.parts, s.Labelled v :=
  SessionTree.forall_parts_of_calls (P := fun s => s.Labelled v) hp v ht
    (fun _ hs => ⟨hs.slots, fun _ hwrite => ScopeSession.unit?_of_due hwrite⟩)
    fun _ _ hs => ⟨hs.slots, fun _ hwrite => absurd hwrite List.not_mem_nil⟩

omit [Backing β] [DecidableEq δ] [Digest δ] in
theorem Labelled.onSession (h : w.Labelled) (hkept : w.Kept) (handle : String)
    {call : SessionTree (ScopeSession δ) → Vault β δ → SessionTree (ScopeSession δ) × Vault β δ}
    (hcall : ∀ t p, t.Uniform p → (∀ s ∈ t.parts, s.Labelled w.vault) →
      (call t w.vault).2.unit? = w.vault.unit? ∧
        ∀ s ∈ (call t w.vault).1.parts, s.Labelled w.vault) :
    (w.onSession handle call).Labelled := by
  unfold Workspace.onSession
  split
  · exact h
  · rename_i t ht
    have hmem := Bindings.mem_of_get? ht
    obtain ⟨p, hp⟩ := hkept.sessions _ hmem
    obtain ⟨hunit, hparts⟩ := hcall t p hp (h _ hmem)
    have hkeeps : w.vault.Keeps (call t w.vault).2 := Vault.Keeps.of_eq hunit
    refine h.of_sessions hkeeps fun e he => ?_
    rcases Bindings.mem_insert he with rfl | he
    · exact Or.inr fun s hs => (hparts s hs).of_keeps hkeeps
    · exact Or.inl he

/-- **Every action** keeps the labels. -/
theorem Labelled.act (h : w.Labelled) (hkept : w.Kept) (a : Action β) : (w.act a).Labelled := by
  -- Most actions leave the sessions alone.
  have hsame : (w.act a).sessions = w.sessions → (w.act a).Labelled := fun hsessions =>
    h.of_sessions (hkept.act a).2 fun e he => Or.inl (hsessions ▸ he)
  have hsettle : ∀ w₁ : Workspace β δ, w₁.sessions = w.sessions →
      w₁.settle.sessions = w.sessions := fun w₁ hsessions =>
    settle_preserves (fun w' => w'.sessions = w.sessions) (fun _ h => h) hsessions
  have houtline : ∀ {w₁ : Workspace β δ}, w₁.outline = w.outline → w₁.sessions = w.sessions :=
    congrArg fun o : Workspace Unit δ => o.sessions
  cases a with
  | addPool | addScope | list | addComponent | edit | disturb => exact hsame rfl
  | attach | unlist | release | releaseRegistry => exact hsame (hsettle _ rfl)
  | register scope component name template =>
    rcases w.addComponent_placed scope component name template with
      ⟨hout, _⟩ | ⟨_, _, _, hplaced⟩
    · exact hsame (houtline hout)
    · exact hsame hplaced.sessions
  | expand scope text forget =>
    exact hsame (houtline (expandIn_effect text forget (w.withSubstitutors scope) w).1)
  | reinit scope names reload => exact hsame (houtline (reinit_effect w scope names reload).outline)
  | save scope =>
    refine hsame ?_
    rw [Workspace.act, (save_keeps w scope).1]
  | openSession handle scope =>
    refine h.of_sessions (Vault.Keeps.refl _) fun e he => ?_
    rcases Bindings.mem_insert he with rfl | he
    · exact Or.inr (labelled_startSave hkept scope)
    · exact Or.inl he
  | saveSession handle =>
    rw [Workspace.act]
    exact h.onSession hkept handle fun t p hp ht =>
      ⟨(unit?_of_calls hp w.vault).1, (labelled_calls hp ht).1⟩
  | finishSession handle =>
    rw [Workspace.act]
    exact h.onSession hkept handle fun t p hp ht =>
      ⟨(unit?_of_calls hp w.vault).2.1, (labelled_calls hp ht).2.1⟩
  | resetSession handle =>
    rw [Workspace.act]
    exact h.onSession hkept handle fun t p hp ht =>
      ⟨(unit?_of_calls hp w.vault).2.2, (labelled_calls hp ht).2.2⟩
  | dropSession handle =>
    exact h.of_sessions (Vault.Keeps.refl _) fun e he => Or.inl (List.mem_filter.mp he).1

/-- The labels last over a course of events. -/
theorem Steps.labelled {allowed : Action β → Prop} (hkept : w.Kept) (h : w.Labelled)
    (hsteps : Steps allowed w w') : w'.Kept ∧ w'.Labelled :=
  hsteps.preserves (fun w => w.Kept ∧ w.Labelled)
    (fun _ a h _ _ => ⟨(h.1.act a).1, h.2.act h.1 a⟩) ⟨hkept, h⟩

theorem Reachable.labelled {allowed : Action β → Prop} (h : w.Reachable allowed) :
    w.Labelled := by
  obtain ⟨backing, hsteps⟩ := h
  exact (hsteps.labelled (kept_start backing) fun e he => absurd he List.not_mem_nil).2

/-- **Every event** keeps the labels. -/
theorem Labelled.happen (h : w.Labelled) (hkept : w.Kept) (e : Event β) :
    (w.happen e).Labelled := by
  cases e with
  | act action => exact h.act hkept action
  | openOwn handle scope =>
    refine h.of_sessions (Vault.Keeps.refl _) fun e he => ?_
    rcases Bindings.mem_insert he with rfl | he
    · refine Or.inr fun s hs => ?_
      rw [List.mem_singleton.mp hs]
      exact labelled_openScope hkept scope
    · exact Or.inl he
  | keepWrite handle p unit template states =>
    obtain ⟨_, w₁, sessions, hsupplied, hout, hsessions⟩ :=
      w.keepWrite_spec handle p unit template states
    rw [Workspace.happen, hout]
    refine h.of_sessions (hsupplied.kept hkept).2 fun e he => ?_
    rcases hsessions e he with he | ⟨write, hwrite, _, hunit⟩
    · exact Or.inl he
    · rw [hwrite]
      exact Or.inr (labelled_loneWrite hunit)

theorem labelled_happenAll (backing : β) (events : List (Event β)) :
    ((start backing : Workspace β δ).happenAll events).Labelled :=
  happenAll_of_kept Labelled (fun _ he => absurd he List.not_mem_nil)
    (fun _ e hkept h => h.happen hkept e) events

end Happening

/-! ## 2. Holders -/

/-- Somebody holds a storage for the unit at a location. -/
inductive HoldsAt (w : Workspace β δ) (l : Location) (k : StorageId) : Prop where
  /-- A scope in use maps the unit. -/
  | scope {id : ScopeId} {s : Scope} {unit : Path} (live : id ∈ w.live)
      (found : w.scope? id = some s) (mapped : get? s.storages l = some (unit, k))
  /-- A component of a scope in use is kept in the unit. -/
  | component {id : ScopeId} {s : Scope} {name : String} {e : Entry} {unit : Path}
      (live : id ∈ w.live) (found : w.scope? id = some s)
      (entry : get? s.components name = some e) (storage : e.storage = k)
      (kept : w.unitOf? id name = some unit) (location : unit.location = l)
  /-- A session has the unit. -/
  | session {e : String × SessionTree (ScopeSession δ)} {s : ScopeSession δ} {slot : Slot}
      (opened : e ∈ w.sessions) (part : s ∈ e.2.parts) (has : slot ∈ s.layout)
      (storage : slot.storage = k) (location : slot.unit.location = l)
  /-- A staged write is for the unit. -/
  | write {e : String × SessionTree (ScopeSession δ)} {s : ScopeSession δ} {write : StagedWrite δ}
      (opened : e ∈ w.sessions) (part : s ∈ e.2.parts) (staged : write ∈ s.staged)
      (storage : write.storage = k) (location : write.unit.location = l)

/-- **The storages that are held are those in use**, each for the location that it is
about. -/
theorem holdsAt_iff (hkept : w.Kept) (hlabelled : w.Labelled) {l : Location} {k : StorageId} :
    w.HoldsAt l k ↔ w.inUse k = true ∧ w.vault.location? k = some l := by
  rw [inUse_iff]
  constructor
  · intro h
    cases h with
    | scope live found mapped =>
      exact ⟨Or.inl ⟨_, live, _, found, l, _, Bindings.mem_of_get? mapped⟩,
        (hkept.scope found).located l _ k mapped⟩
    | component live found entry storage kept location =>
      subst storage
      obtain ⟨l', u, hl'⟩ := (hkept.scope found).mapped _ _ entry
      refine ⟨Or.inl ⟨_, live, _, found, l', u, Bindings.mem_of_get? hl'⟩, ?_⟩
      rw [unitOf?, found, Option.bind_some, entry, Option.bind_some] at kept
      rw [← location]
      exact Vault.location?_of_unit? kept
    | session opened part has storage location =>
      subst storage location
      exact ⟨Or.inr ⟨_, opened, _, part, Or.inl ⟨_, has, rfl⟩⟩,
        Vault.location?_of_unit? ((hlabelled _ opened _ part).slots _ has)⟩
    | write opened part staged storage location =>
      subst storage location
      exact ⟨Or.inr ⟨_, opened, _, part, Or.inr ⟨_, staged, rfl⟩⟩,
        Vault.location?_of_unit? ((hlabelled _ opened _ part).writes _ staged)⟩
  · rintro ⟨⟨id, hid, s, hs, l', u, hmem⟩ | ⟨e, he, part, hpart, hrefers⟩, hl⟩
    · have hmapped := (hkept.scope hs).storages.get?_of_mem hmem
      obtain rfl : l' = l :=
        Option.some.inj (((hkept.scope hs).located l' u k hmapped).symm.trans hl)
      exact .scope hid hs hmapped
    · have hlabel : ∀ {u : Path}, w.vault.unit? k = some u → u.location = l := fun hu =>
        Option.some.inj ((Vault.location?_of_unit? hu).symm.trans hl)
      rcases hrefers with ⟨slot, hslot, rfl⟩ | ⟨write, hwrite, rfl⟩
      · exact .session he hpart hslot rfl (hlabel ((hlabelled e he part hpart).slots slot hslot))
      · exact .write he hpart hwrite rfl (hlabel ((hlabelled e he part hpart).writes write hwrite))

/-! ## 3. What the pool tells -/

/-- Pools have their entries in the order of the locations. -/
def PoolsSorted (w : Workspace β δ) : Prop := ∀ p ∈ w.pools, Sorted p

theorem PoolsSorted.pool (h : w.PoolsSorted) (p : PoolId) : Sorted (w.pool p) := by
  rw [Workspace.pool, List.getD_eq_getElem?_getD]
  cases hp : w.pools[p]? with
  | none => exact Bindings.sorted_nil
  | some pool => exact h pool (List.mem_of_getElem? hp)

/-- **The pool counts the locations** for which somebody holds a storage. -/
theorem poolSize_eq (hkept : w.Kept) (hlabelled : w.Labelled) (hpooled : w.Pooled)
    (hsorted : w.PoolsSorted) :
    ∃ locations : List Location, locations.Nodup ∧
      (∀ l, l ∈ locations ↔ ∃ k, w.HoldsAt l k) ∧ w.poolSize 0 = locations.length := by
  have hpool : Sorted (w.pool 0) := hsorted.pool 0
  refine ⟨((w.pool 0).filter fun e => w.inUse e.2).map Prod.fst,
    (hpool.filter _).nodup_keys, fun l => ?_, ?_⟩
  · rw [List.mem_map]
    constructor
    · rintro ⟨⟨l, k⟩, hmem, rfl⟩
      obtain ⟨hmem, hk⟩ := List.mem_filter.mp hmem
      exact ⟨k, (holdsAt_iff hkept hlabelled).mpr
        ⟨hk, hkept.pool 0 l k (hpool.get?_of_mem hmem)⟩⟩
    · rintro ⟨k, hholds⟩
      obtain ⟨hk, hl⟩ := (holdsAt_iff hkept hlabelled).mp hholds
      exact ⟨(l, k),
        List.mem_filter.mpr ⟨Bindings.mem_of_get? (hpooled.pooled k l hk hl), hk⟩, rfl⟩
  · rw [poolSize, Pool.size, Bindings.values, List.filter_map, List.length_map, List.length_map]
    rfl

section Obtaining

variable [Backing β] [DecidableEq δ] [Digest δ] {unit : Path} {k : StorageId}

/-- A unit for which somebody holds a storage is not read again. -/
theorem obtain_of_holdsAt (hkept : w.Kept) (hlabelled : w.Labelled) (hpooled : w.Pooled)
    (h : w.HoldsAt unit.location k) (template : String) :
    (w.pool 0).obtain w.inUse unit template w.vault = .ok (k, w.pool 0, w.vault) := by
  obtain ⟨hk, hl⟩ := (holdsAt_iff hkept hlabelled).mp h
  have hfind : (w.pool 0).find? w.inUse unit = some k := by
    rw [Pool.find?, hpooled.pooled k _ hk hl]
    exact if_pos hk
  rw [Pool.obtain, hfind]

/-- Any other unit is read, and has a storage from then on if it can be. -/
theorem obtain_of_not_holdsAt (hkept : w.Kept) (hlabelled : w.Labelled)
    (h : ∀ k, ¬ w.HoldsAt unit.location k) (template : String) :
    (w.pool 0).obtain w.inUse unit template w.vault
      = (w.vault.readSnapshot unit).map fun snapshot => (w.vault.storages.length,
          Bindings.insert (w.pool 0) unit.location w.vault.storages.length,
          (w.vault.addStorage { unit, template, snapshot }).2) := by
  -- What the pool has there is out of use: nobody holds it.
  have hfind : (w.pool 0).find? w.inUse unit = none := by
    unfold Pool.find?
    split
    · rename_i j hj
      split
      · rename_i hused
        exact absurd ((holdsAt_iff hkept hlabelled).mpr ⟨hused, hkept.pool 0 _ j hj⟩) (h j)
      · rfl
    · rfl
  rw [Pool.obtain, hfind]
  cases w.vault.readSnapshot unit <;> rfl

omit [DecidableEq δ] in
theorem PoolsSorted.stocked (h : w.PoolsSorted) (hstocked : Stocked w w') : w'.PoolsSorted := by
  intro p hp
  cases hstocked with
  | same unit pools =>
    rcases pools p hp with rfl | hp
    · exact Bindings.sorted_nil
    · exact h p hp
  | loaded s q read storages pools =>
    rw [pools] at hp
    rcases List.mem_or_eq_of_mem_set hp with hp | rfl
    · exact h p hp
    · exact (h.pool q).insert _ _

theorem sorted_happenAll (backing : β) (events : List (Event β)) :
    ((start backing : Workspace β δ).happenAll events).PoolsSorted := by
  have hstart : (start backing : Workspace β δ).PoolsSorted := by
    intro p hp
    rw [List.mem_singleton.mp hp]
    exact Bindings.sorted_nil
  exact happenAll_of_kept PoolsSorted hstart
    (fun _ e hkept h => h.stocked (happen_stocked hkept e)) events

omit [DecidableEq δ] in
/-- A storage was there before an event, or its unit has just been read. -/
theorem Stocked.unit?_or (h : Stocked w w') (hk : w'.vault.unit? k = some unit) :
    w.vault.unit? k = some unit ∨ ∃ template snapshot,
      w.vault.readSnapshot unit = .ok snapshot ∧ w.vault.storages.length = k ∧
        w'.vault.storage? k = some ⟨unit, template, snapshot⟩ := by
  cases h with
  | same hunit pools =>
    rw [← hunit]
    exact Or.inl hk
  | loaded s p read storages pools =>
    have hstorage : ∀ j, w'.vault.storage? j
        = if j = w.vault.storages.length then some s else w.vault.storage? j := by
      intro j
      rw [← Vault.storage?_addStorage, Vault.storage?, storages]
      rfl
    obtain ⟨st, hst, rfl⟩ := Vault.unit?_eq_some hk
    rw [hstorage] at hst
    split at hst
    · rename_i hnew
      obtain rfl := Option.some.inj hst
      refine Or.inr ⟨s.template, s.snapshot, read, hnew.symm, ?_⟩
      rw [hstorage, if_pos hnew]
    · exact Or.inl (Vault.unit?_of_storage? hst)

/-- **A storage was loaded**: one of some events has read its unit, and given what was read
to a new storage, with a number that nothing had before. -/
def LoadedBy (w : Workspace β δ) (events : List (Event β)) (unit : Path) (k : StorageId) : Prop :=
  ∃ before e after template snapshot, events = before ++ e :: after ∧
    (w.happenAll before).vault.readSnapshot unit = .ok snapshot ∧
    (w.happenAll before).vault.storages.length = k ∧
    (w.happenAll (before ++ [e])).vault.storage? k = some ⟨unit, template, snapshot⟩

/-- **Every storage was there or has been loaded.** -/
theorem loaded_happenAll (h : w.Kept) (events : List (Event β))
    (hk : (w.happenAll events).vault.unit? k = some unit) :
    w.vault.unit? k = some unit ∨ w.LoadedBy events unit k := by
  -- From the end: the last event has loaded it, or it was there before that.
  induction events using List.reverseRecOn with
  | nil => exact Or.inl hk
  | append_singleton events e ih =>
    rw [happenAll_append] at hk
    rcases (happen_stocked (h.happenAll events) e).unit?_or hk with
      hold | ⟨template, snapshot, hread, hlength, hst⟩
    · refine (ih hold).imp_right ?_
      rintro ⟨before, e', after, template, snapshot, rfl, hloaded⟩
      exact ⟨before, e', after ++ [e], template, snapshot, by simp, hloaded⟩
    · refine Or.inr ⟨events, e, [], template, snapshot, rfl, hread, hlength, ?_⟩
      rw [happenAll_append]
      exact hst

end Obtaining

/-- **One unit, one storage.** All scopes and writes draw from one pool, and any events
have happened that could.

Any two that hold storages for the same location hold the same one. Each of these was
loaded, for a unit at that location, by one of the events. Whoever asks the pool for a unit
gets the storage that is held for it, and nothing is read; if none is, the unit is read,
and unless that fails it has a new storage that remembers what was read. And the size of
the pool is the number of locations that somebody holds a storage for. -/
theorem one_storage_per_location [Backing β] [DecidableEq δ] [Digest δ] {backing : β}
    {events : List (Event β)} (honePool : ∀ e ∈ events, e.OnePool)
    (hadmitted : (start backing : Workspace β δ).AllAdmitted events)
    (hw : (start backing : Workspace β δ).happenAll events = w) :
    (∀ l k k', w.HoldsAt l k → w.HoldsAt l k' → k = k') ∧
      (∀ l k, w.HoldsAt l k → ∃ unit, unit.location = l ∧
        (start backing : Workspace β δ).LoadedBy events unit k) ∧
      (∀ unit template,
        (∀ k, w.HoldsAt unit.location k →
          (w.pool 0).obtain w.inUse unit template w.vault = .ok (k, w.pool 0, w.vault)) ∧
        ((∀ k, ¬ w.HoldsAt unit.location k) →
          (w.pool 0).obtain w.inUse unit template w.vault
            = (w.vault.readSnapshot unit).map fun snapshot => (w.vault.storages.length,
                Bindings.insert (w.pool 0) unit.location w.vault.storages.length,
                (w.vault.addStorage { unit, template, snapshot }).2))) ∧
      ∃ locations : List Location, locations.Nodup ∧
        (∀ l, l ∈ locations ↔ ∃ k, w.HoldsAt l k) ∧ w.poolSize 0 = locations.length := by
  subst hw
  have hstart : (start backing : Workspace β δ).Kept := kept_start backing
  have hkept := hstart.happenAll events
  have hpooled := pooled_happenAll honePool hadmitted
  have hlabelled : ((start backing : Workspace β δ).happenAll events).Labelled :=
    labelled_happenAll backing events
  refine ⟨fun l k k' hk hk' => ?_, fun l k hk => ?_, fun unit template => ⟨?_, ?_⟩, ?_⟩
  · obtain ⟨hk, hl⟩ := (holdsAt_iff hkept hlabelled).mp hk
    obtain ⟨hk', hl'⟩ := (holdsAt_iff hkept hlabelled).mp hk'
    exact hpooled.unique hk hk' hl hl'
  · obtain ⟨_, hl⟩ := (holdsAt_iff hkept hlabelled).mp hk
    obtain ⟨unit, hunit, hl⟩ := Option.map_eq_some_iff.mp hl
    exact ⟨unit, hl, (loaded_happenAll hstart events hunit).resolve_left (by rintro ⟨⟩)⟩
  · exact fun k hk => obtain_of_holdsAt hkept hlabelled hpooled hk template
  · exact fun h => obtain_of_not_holdsAt hkept hlabelled h template
  · exact poolSize_eq hkept hlabelled hpooled (sorted_happenAll backing events)

/-- Two scopes map one unit, under two texts, and one of them fails to map another unit. A
session is opened over the other scope and a write is kept for a third unit, and then both
scopes are let go. -/
def outlivedEvents : List (Event Faulty) :=
  [.act (.disturb fun f => f.refuseReads ⟨"/broken.json"⟩ true),
    .act (.addScope "root" none 0), .act (.addScope "m" none 0),
    .act (.addComponent { name := "a" }), .act (.addComponent { name := "b" }),
    .act (.register 0 0 "a" "/u.json"), .act (.register 1 1 "b" "/./u.json"),
    .act (.register 0 1 "b" "/broken.json"),
    .openOwn "s" 1, .keepWrite "k" 0 ⟨"/v.json"⟩ "/v.json" [("c", some (.integer 1))],
    .act (.release 0), .act (.release 1)]

/-- What that leads to. -/
def outlived : Workspace Faulty Bytes := (start {}).happenAll outlivedEvents

/-- No scope is in use any more, and the pool has the two units that are still held: one
by the session, under either text, and one by the write. -/
theorem storages_outlive_scopes :
    (∀ e ∈ outlivedEvents, e.OnePool) ∧
      (start {} : Workspace Faulty Bytes).AllAdmitted outlivedEvents ∧ outlived.live = [] ∧
      ((outlived.pool 0).obtain outlived.inUse ⟨"/u.json"⟩ "/u.json" outlived.vault
        = .ok (0, outlived.pool 0, outlived.vault)) ∧
      ∃ locations : List Location, locations.Nodup ∧
        (∀ l, l ∈ locations ↔ ∃ k, outlived.HoldsAt l k) ∧ locations.length = 2 := by
  have honePool : ∀ e ∈ outlivedEvents, e.OnePool := by
    simp [outlivedEvents, Event.OnePool, Action.OnePool]
  have hadmitted : (start {} : Workspace Faulty Bytes).AllAdmitted outlivedEvents := by
    decide +kernel
  obtain ⟨_, _, hobtain, locations, hnodup, hlocations, hsize⟩ :=
    one_storage_per_location honePool hadmitted rfl
  have hsize' : outlived.poolSize 0 = 2 := by decide +kernel
  have hslot : ∃ e ∈ outlived.sessions, ∃ s ∈ e.2.parts, ∃ slot ∈ s.layout,
      slot.storage = 0 ∧ slot.unit.location = Path.location ⟨"/u.json"⟩ := by decide +kernel
  obtain ⟨e, he, s, hs, slot, hslot, hstorage, hlocation⟩ := hslot
  exact ⟨honePool, hadmitted, by decide +kernel,
    (hobtain ⟨"/u.json"⟩ "/u.json").1 0 (.session he hs hslot hstorage hlocation),
    locations, hnodup, hlocations, hsize.symm.trans hsize'⟩

end Workspace

end ScopedState
