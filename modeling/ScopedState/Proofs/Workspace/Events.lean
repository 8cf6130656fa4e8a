/-
`Proofs/Workspace/Events.lean` -- what else a caller can hold on to.

Actions open sessions over trees of scopes, and a write that is staged belongs to one of
these. A caller can do with less: open the session of one scope without those below it,
or ask a pool for the storage of a unit, stage states for it and keep nothing but the
write. Such a write keeps its storage in use when no scope and no other session does. It
stands among the sessions, as one without units that has this write staged.

What scopes map and what pools know is hardly ever touched. Most events enter no
component, map no unit and load no storage; all that they may add is an empty scope or an
empty pool (`Unmoved`). Two kinds of event do more. Registering a component enters it and
maps its unit, and takes the storage from the pool (`Placed`); keeping a write takes a
storage from the pool and maps nothing. What is to be kept of these tables in every
course of events has to be looked at for these two alone.
-/
import ScopedState.Proofs.Workspace.Entered
import ScopedState.Proofs.Workspace.Pooled
set_option autoImplicit false

namespace ScopedState

open Bindings (get?)

variable {β δ : Type}

namespace Workspace

/-! ## 1. Events -/

/-- What can happen: an action, or one of two things besides. -/
inductive Event (β : Type) where
  | act (action : Action β)
  /-- A session is opened over one scope without those below it. -/
  | openOwn (handle : String) (scope : ScopeId)
  /-- Somebody asks a pool for the storage of a unit, stages states for it, and keeps the
  write if there is one. -/
  | keepWrite (handle : String) (pool : PoolId) (unit : Path) (template : String)
      (states : States)

/-- The scope that has to be in use for an event. -/
def Event.scope? : Event β → Option ScopeId
  | .act action => action.scope?
  | .openOwn _ scope => some scope
  | .keepWrite .. => none

/-- Whether an event can happen. -/
def Admits (w : Workspace β δ) (e : Event β) : Prop := ∀ id ∈ e.scope?, id ∈ w.live

instance (w : Workspace β δ) (e : Event β) : Decidable (w.Admits e) :=
  inferInstanceAs (Decidable (∀ id ∈ e.scope?, id ∈ w.live))

/-- All scopes and writes draw from the first pool. -/
def Event.OnePool : Event β → Prop
  | .act action => action.OnePool
  | .openOwn .. => True
  | .keepWrite _ pool .. => pool = 0

/-- A write that somebody keeps by itself, as a session. -/
def loneWrite (write : StagedWrite δ) : SessionTree (ScopeSession δ) :=
  .single { scope := 0, name := "", macros := none, layout := [], staged := [write],
            phase := .collecting }

section Happening

variable [Backing β] [DecidableEq δ] [Digest δ]

/-- A write is staged for the storage that a pool has for a unit, and kept. -/
def keepWrite (w : Workspace β δ) (handle : String) (p : PoolId) (unit : Path)
    (template : String) (states : States) : Workspace β δ :=
  match (w.pool p).obtain w.inUse unit template w.vault with
  | .error _ => w
  | .ok (storage, pool, vault) =>
    let w := { w with vault, pools := w.pools.set p pool }
    match w.vault.stage storage states with
    | none => w
    | some write => { w with sessions := Bindings.insert w.sessions handle (loneWrite write) }

/-- The workspace after an event. -/
def happen (w : Workspace β δ) : Event β → Workspace β δ
  | .act action => w.act action
  | .openOwn handle scope =>
    { w with sessions := Bindings.insert w.sessions handle (.single (w.openScope scope)) }
  | .keepWrite handle pool unit template states => w.keepWrite handle pool unit template states

/-- The workspace after one event and another. -/
def happenAll (w : Workspace β δ) (events : List (Event β)) : Workspace β δ :=
  events.foldl happen w

/-- Whether each of some events can happen in its turn. -/
def AllAdmitted (w : Workspace β δ) : List (Event β) → Prop
  | [] => True
  | e :: rest => w.Admits e ∧ AllAdmitted (w.happen e) rest

instance decidableAllAdmitted : ∀ (w : Workspace β δ) (events : List (Event β)),
    Decidable (w.AllAdmitted events)
  | _, [] => isTrue trivial
  | w, e :: rest =>
    have := decidableAllAdmitted (w.happen e) rest
    inferInstanceAs (Decidable (w.Admits e ∧ AllAdmitted (w.happen e) rest))

theorem happenAll_append (w : Workspace β δ) (events more : List (Event β)) :
    w.happenAll (events ++ more) = (w.happenAll events).happenAll more := List.foldl_append

/-- **An induction over courses of events.** -/
theorem happenAll_preserves {allowed : Event β → Prop} (inv : Workspace β δ → Prop)
    (hstep : ∀ w e, inv w → allowed e → w.Admits e → inv (w.happen e)) {w : Workspace β δ}
    {events : List (Event β)} (hallowed : ∀ e ∈ events, allowed e)
    (hadmitted : w.AllAdmitted events) (h : inv w) : inv (w.happenAll events) := by
  induction events generalizing w with
  | nil => exact h
  | cons e rest ih =>
    obtain ⟨hfirst, hrest⟩ := hadmitted
    have hnext : inv (w.happen e) := hstep w e h (hallowed e List.mem_cons_self) hfirst
    exact ih (fun e he => hallowed e (List.mem_cons_of_mem _ he)) hrest hnext

/-- What every event keeps, possible or not, is kept by all of them. -/
theorem happenAll_keeps (inv : Workspace β δ → Prop) (hstep : ∀ w e, inv w → inv (w.happen e))
    {w : Workspace β δ} (h : inv w) (events : List (Event β)) : inv (w.happenAll events) :=
  List.foldlRecOn events happen h fun w hw e _ => hstep w e hw

/-! ## 2. Writes that are kept -/

/-- What asking a pool for a unit comes to: the storages that it may have given, and the
workspace after that. -/
inductive Supplied (w : Workspace β δ) (p : PoolId) (unit : Path) (template : String) :
    (StorageId → Prop) → Workspace β δ → Prop where
  /-- Nothing is read. The pool gives a storage that is in use, or none. -/
  | unread : Supplied w p unit template (fun k => w.inUse k = true) w
  /-- The unit is read, and has a new storage. -/
  | loaded (snapshot : Snapshot δ) (unused : (w.pool p).find? w.inUse unit = none)
      (read : w.vault.readSnapshot unit = .ok snapshot) :
      Supplied w p unit template (fun k => k = w.vault.storages.length)
        (w.addStorage p { unit, template, snapshot })

/-- **Keeping a write** changes what asking the pool changes, and the sessions. What is new
among these is a write for a storage that the pool has given. -/
theorem keepWrite_spec (w : Workspace β δ) (handle : String) (p : PoolId) (unit : Path)
    (template : String) (states : States) :
    ∃ given w₁ sessions, Supplied w p unit template given w₁ ∧
      w.keepWrite handle p unit template states = { w₁ with sessions } ∧
      ∀ e ∈ sessions, e ∈ w.sessions ∨ ∃ write : StagedWrite δ, e.2 = loneWrite write ∧
        given write.storage ∧ w₁.vault.unit? write.storage = some write.unit := by
  unfold keepWrite
  cases hfound : (w.pool p).obtain w.inUse unit template w.vault with
  | error e => exact ⟨_, w, w.sessions, .unread, rfl, fun e he => Or.inl he⟩
  | ok found =>
    obtain ⟨k, pool, vault⟩ := found
    obtain ⟨given, hsupplied, hgiven⟩ : ∃ given, Supplied w p unit template given
        { w with vault, pools := w.pools.set p pool } ∧ given k := by
      rcases obtain_cases hfound with
        ⟨_, hused, rfl, rfl⟩ | ⟨snapshot, hunused, hread, rfl, rfl, rfl⟩
      · rw [set_pool]
        exact ⟨_, .unread, hused⟩
      · exact ⟨_, .loaded snapshot hunused hread, rfl⟩
    simp only []
    cases hstage : vault.stage k states with
    | none => exact ⟨given, _, w.sessions, hsupplied, rfl, fun e he => Or.inl he⟩
    | some write =>
      obtain ⟨rfl, hunit⟩ := Vault.unit?_of_stage hstage
      refine ⟨given, _, _, hsupplied, rfl, fun e he => ?_⟩
      rcases Bindings.mem_insert he with rfl | he
      · exact Or.inr ⟨write, rfl, hgiven, hunit⟩
      · exact Or.inl he

omit [Backing β] [DecidableEq δ] [Digest δ] in
/-- The only storage that a write by itself refers to is its own. -/
theorem refers_loneWrite {write : StagedWrite δ} {k : StorageId} {s : ScopeSession δ}
    (hs : s ∈ (loneWrite write).parts) (hk : Refers s k) : write.storage = k := by
  obtain rfl := List.mem_singleton.mp hs
  rcases hk with ⟨slot, hslot, _⟩ | ⟨staged, hstaged, hk⟩
  · cases hslot
  · rw [← List.mem_singleton.mp hstaged]
    exact hk

variable {w w₁ : Workspace β δ} {p : PoolId} {unit : Path} {template : String}

omit [DecidableEq δ] in
/-- Asking a pool leaves everything in order. -/
theorem Supplied.kept {given : StorageId → Prop} (h : Supplied w p unit template given w₁)
    (hkept : w.Kept) : w₁.Kept ∧ w.vault.Keeps w₁.vault := by
  cases h with
  | unread => exact ⟨hkept, Vault.Keeps.refl _⟩
  | loaded snapshot unused read => exact ⟨hkept.addStorage p _, w.vault.keeps_addStorage _⟩

/-- **Every event keeps everything in order**, and every number about its unit. -/
theorem Kept.happen (h : w.Kept) (e : Event β) :
    (w.happen e).Kept ∧ w.vault.Keeps (w.happen e).vault := by
  cases e with
  | act action => exact h.act action
  | openOwn handle scope =>
    refine ⟨⟨h.scopes, h.pools, ?_⟩, Vault.Keeps.refl _⟩
    exact forall_mem_insert_sessions (P := fun t => ∃ phase, t.Uniform phase) h.sessions handle
      ⟨.open, w.openScope_phase scope⟩
  | keepWrite handle p unit template states =>
    obtain ⟨_, w₁, sessions, hsupplied, hout, hsessions⟩ :=
      w.keepWrite_spec handle p unit template states
    obtain ⟨hkept, hkeeps⟩ := hsupplied.kept h
    rw [Workspace.happen, hout]
    refine ⟨⟨hkept.scopes, hkept.pools, fun e he => ?_⟩, hkeeps⟩
    rcases hsessions e he with he | ⟨write, hwrite, _⟩
    · exact h.sessions e he
    · rw [hwrite]
      exact ⟨.collecting, rfl⟩

/-- **Every event leaves in use what is below a scope in use.** -/
theorem Closed.happen (h : w.Closed) {e : Event β} (hadmitted : w.Admits e) :
    (w.happen e).Closed := by
  cases e with
  | act action => exact h.act hadmitted
  | openOwn handle scope => exact ⟨h.bound, h.listed⟩
  | keepWrite handle p unit template states =>
    obtain ⟨_, w₁, sessions, hsupplied, hout, _⟩ := w.keepWrite_spec handle p unit template states
    rw [Workspace.happen, hout]
    cases hsupplied with
    | unread => exact ⟨h.bound, h.listed⟩
    | loaded snapshot unused read => exact ⟨h.bound, h.listed⟩

/-- A write that is kept puts into use a storage that the pool has given. -/
theorem Pooled.keepWrite (h : w.Pooled) (handle : String) (unit : Path) (template : String)
    (states : States) : (w.keepWrite handle 0 unit template states).Pooled := by
  obtain ⟨given, w₁, sessions, hsupplied, hout, hsessions⟩ :=
    w.keepWrite_spec handle 0 unit template states
  rw [hout]
  -- The scopes use what they used, and so do the sessions that were there.
  have huse : ∀ (hlive : w₁.live = w.live) (hscopes : w₁.scopes = w.scopes) k,
      Workspace.inUse { w₁ with sessions } k = true → w.inUse k = true ∨ given k := by
    intro hlive hscopes k hk
    rcases (inUse_iff _ k).mp hk with ⟨id, hid, s, hs, huses⟩ | ⟨e, he, s, hs, hrefers⟩
    · refine Or.inl ((inUse_iff w k).mpr (Or.inl ⟨id, hlive ▸ hid, s, ?_, huses⟩))
      have hs' : w₁.scopes[id]? = some s := hs
      rwa [hscopes] at hs'
    · rcases hsessions e he with he | ⟨write, hwrite, hgiven, _⟩
      · exact Or.inl ((inUse_iff w k).mpr (Or.inr ⟨e, he, s, hs, hrefers⟩))
      · rw [hwrite] at hs
        exact Or.inr (refers_loneWrite hs hrefers ▸ hgiven)
  cases hsupplied with
  | unread =>
    exact h.of_fewer h.pool rfl h.onePool rfl fun k hk => (huse rfl rfl k hk).elim id id
  | loaded snapshot unused read => exact h.of_loaded unused rfl h.onePool rfl (huse rfl rfl)

/-- **Every event** leaves all storages in use in the pool, as long as everybody draws
from it. -/
theorem Pooled.happen (h : w.Pooled) (hkept : w.Kept) (hclosed : w.Closed) {e : Event β}
    (honePool : e.OnePool) (hadmitted : w.Admits e) : (w.happen e).Pooled := by
  cases e with
  | act action => exact h.act hkept hclosed honePool hadmitted
  | openOwn handle scope =>
    refine h.of_fewer h.pool rfl h.onePool rfl fun k => inUse_withSession fun s hs hk => ?_
    obtain rfl := List.mem_singleton.mp hs
    rcases hk with ⟨slot, hslot, rfl⟩ | ⟨write, hwrite, _⟩
    · exact inUse_of_openScope (hadmitted scope rfl) hslot
    · rw [w.openScope_staged scope] at hwrite
      cases hwrite
  | keepWrite handle p unit template states =>
    obtain rfl : p = 0 := honePool
    exact h.keepWrite handle unit template states

/-- **Every course of events** keeps everything in order. -/
theorem Kept.happenAll (h : w.Kept) (events : List (Event β)) : (w.happenAll events).Kept :=
  happenAll_keeps Kept (fun _ e hkept => (hkept.happen e).1) h events

/-- What every event keeps while everything is in order is kept from the start on. -/
theorem happenAll_of_kept (inv : Workspace β δ → Prop) {backing : β} (hstart : inv (start backing))
    (hstep : ∀ w e, w.Kept → inv w → inv (w.happen e)) (events : List (Event β)) :
    inv ((start backing).happenAll events) :=
  (happenAll_keeps (fun w => w.Kept ∧ inv w)
    (fun w e h => ⟨(h.1.happen e).1, hstep w e h.1 h.2⟩) ⟨kept_start backing, hstart⟩ events).2

/-- **Every course of events from the start** leaves all storages in use in the pool, as
long as everybody draws from it. -/
theorem pooled_happenAll {backing : β} {events : List (Event β)}
    (honePool : ∀ e ∈ events, e.OnePool)
    (hadmitted : (start backing : Workspace β δ).AllAdmitted events) :
    ((start backing : Workspace β δ).happenAll events).Pooled := by
  refine (happenAll_preserves (fun w => w.Kept ∧ w.Closed ∧ w.Pooled) ?_ honePool hadmitted
    ⟨kept_start backing, closed_start backing, pooled_start backing⟩).2.2
  rintro w e ⟨hkept, hclosed, hpooled⟩ hallowed hadmitted
  exact ⟨(hkept.happen e).1, hclosed.happen hadmitted,
    hpooled.happen hkept hclosed hallowed hadmitted⟩

/-! ## 3. What scopes map and what pools know -/

/-- Nothing is entered, mapped or loaded. -/
structure Unmoved (w w' : Workspace β δ) : Prop where
  entry : w'.entryOf? = w.entryOf?
  mapped : w'.mapped? = w.mapped?
  unit : w'.vault.unit? = w.vault.unit?
  pools : ∀ p ∈ w'.pools, p = [] ∨ p ∈ w.pools

/-- **A component has been entered**, whose name was free, and its unit has been mapped. -/
structure Placed (w w' : Workspace β δ) (id : ScopeId) (p : PoolId) (name : String) (e : Entry)
    (unit : Path) (template : String) : Prop where
  sessions : w'.sessions = w.sessions
  free : w.entryOf? id name = none
  entry : ∀ j m, w'.entryOf? j m = if j = id ∧ m = name then some e else w.entryOf? j m
  mapped : ∀ j l, w'.mapped? j l
    = if j = id ∧ l = unit.location then some e.storage else w.mapped? j l
  storage : Provided w w' id p unit template e.storage

section Tables

omit [Backing β] [DecidableEq δ] [Digest δ]

/-- Scopes and pools stay as they are, and storages about their units. -/
theorem Unmoved.of_eq {w' : Workspace β δ} (hscopes : w'.scopes = w.scopes)
    (hpools : w'.pools = w.pools) (hunit : w'.vault.unit? = w.vault.unit?) : Unmoved w w' := by
  have hscope : w'.scope? = w.scope? := by
    funext id
    rw [scope?, scope?, hscopes]
  refine ⟨?_, ?_, hunit, fun p hp => Or.inr (hpools ▸ hp)⟩
  · funext id name
    rw [entryOf?, entryOf?, hscope]
  · funext id l
    rw [mapped?, mapped?, hscope]

/-- Path variables do not matter. -/
theorem Unmoved.of_outline {w' : Workspace β δ} (houtline : w'.outline = w.outline)
    (hunit : w'.vault.unit? = w.vault.unit?) : Unmoved w w' := by
  have hpools : w'.pools = w.pools := congrArg (fun o : Workspace Unit δ => o.pools) houtline
  exact ⟨entryOf?_of_outline houtline, mapped?_of_outline houtline, hunit,
    fun p hp => Or.inr (hpools ▸ hp)⟩

/-- A scope that is new has no components and maps nothing. -/
theorem Unmoved.addScope {s : Scope} (hcomponents : s.components = [])
    (hstorages : s.storages = []) : Unmoved w (w.addScope s).2 := by
  -- One number finds a scope that it did not find before, and nothing in that.
  have hviews : ∀ {α : Type} (f : Scope → Option α), f s = none → ∀ id,
      ((w.addScope s).2.scope? id).bind f = (w.scope? id).bind f := by
    intro α f hf id
    have hscope : (w.addScope s).2.scope? id = (w.scopes ++ [s])[id]? := rfl
    rw [hscope, scope?]
    rcases Nat.lt_trichotomy id w.scopes.length with hlt | rfl | hgt
    · rw [List.getElem?_append_left hlt]
    · rw [List.getElem?_concat_length, List.getElem?_eq_none (Nat.le_refl _)]
      exact hf
    · rw [List.getElem?_eq_none (Nat.le_of_lt hgt), List.getElem?_eq_none]
      rw [List.length_append, List.length_singleton]
      exact hgt
  refine ⟨?_, ?_, rfl, fun p hp => Or.inr hp⟩
  · funext id name
    exact hviews _ (by rw [hcomponents]; rfl) id
  · funext id l
    exact hviews _ (by rw [hstorages]; rfl) id

/-- A call on a session that leaves storages about their units. -/
theorem Unmoved.onSession (h : w.Kept) (handle : String)
    {call : SessionTree (ScopeSession δ) → Vault β δ → SessionTree (ScopeSession δ) × Vault β δ}
    (hcall : ∀ t p, t.Uniform p → (call t w.vault).2.unit? = w.vault.unit?) :
    Unmoved w (w.onSession handle call) := by
  unfold Workspace.onSession
  split
  · exact .of_eq rfl rfl rfl
  · rename_i t ht
    obtain ⟨p, hp⟩ := h.sessions _ (Bindings.mem_of_get? ht)
    exact .of_eq rfl rfl (hcall t p hp)

theorem loadComponent_storages (w : Workspace β δ) (id : ScopeId) (name : String) (e : Entry) :
    (w.loadComponent id name e).vault.storages = w.vault.storages := by
  unfold loadComponent
  split <;> rfl

end Tables

/-- **Registering a component** enters it and maps its unit, or does not change the
outline. -/
theorem addComponent_placed (w : Workspace β δ) (id : ScopeId) (component : ComponentId)
    (name template : String) :
    ((w.addComponent id component name template).2.outline = w.outline ∧
        (w.addComponent id component name template).2.vault = w.vault) ∨
      ∃ p unit k, Placed w (w.addComponent id component name template).2 id p name
        ⟨component, k⟩ unit template := by
  by_cases hany : ((w.scope? id).any fun s => Bindings.binds s.components name) = true
  · rw [addComponent, if_pos hany]
    exact Or.inl ⟨rfl, rfl⟩
  rcases w.addComponent_cases id component name template with
    hsame | ⟨w₁, s, unit, k, w₂, houtline, hvault, hs, hfound, hout⟩
  · exact Or.inl hsame
  · have hobtained := storageFor_obtained hs hfound
    have heffect := loadComponent_effect w₂ id name ⟨component, k⟩
    -- The scope is there when the component is entered, and was there in the beginning.
    have hscope : ∀ {w₁ w₂ : Workspace β δ} {s : Scope}, w₂.outline = w₁.outline →
        w₁.scope? id = some s → ∃ t, w₂.scope? id = some t ∧ t.components = s.components := by
      intro w₁ w₂ s houtline hs
      have hcomponents := components_of_outline houtline id
      rw [hs] at hcomponents
      exact Option.map_eq_some_iff.mp hcomponents
    obtain ⟨t, ht, _⟩ := Option.map_eq_some_iff.mp
      ((hobtained.framed.frame id).trans (congrArg (Option.map Scope.frame) hs))
    obtain ⟨u, hu, _⟩ := hscope heffect.outline ht
    obtain ⟨s₀, hs₀, _⟩ := hscope houtline.symm hs
    obtain ⟨hframed, hmapped, hentry⟩ := enter_views hu name ⟨component, k⟩
    have hsessions : ∀ {w₁ w₂ : Workspace β δ}, w₂.outline = w₁.outline →
        w₂.sessions = w₁.sessions := congrArg fun o : Workspace Unit δ => o.sessions
    have hout' : (w.addComponent id component name template).2
        = (w₂.loadComponent id name ⟨component, k⟩).enter id name ⟨component, k⟩ := hout
    rw [hout']
    refine Or.inr ⟨s.pool, unit, k, ?_, ?_, fun j m => ?_, fun j l => ?_, ?_⟩
    · rw [hframed.sessions, hsessions heffect.outline, hobtained.framed.sessions,
        hsessions houtline]
    · rw [hs₀, Option.any_some, Bindings.binds, Option.isSome_iff_ne_none, not_not] at hany
      rw [entryOf?, hs₀, Option.bind_some, hany]
    · rw [hentry, entryOf?_of_outline heffect.outline, hobtained.entry,
        entryOf?_of_outline houtline]
    · rw [hmapped, mapped?_of_outline heffect.outline, hobtained.mapped,
        mapped?_of_outline houtline]
    · exact hobtained.storage.congr houtline hvault (mapped?_of_outline houtline)
        (w₂.loadComponent_storages id name ⟨component, k⟩)
        (congrArg (fun o : Workspace Unit δ => o.pools) heffect.outline)

/-- **What an action moves**: a registration may place a component; else nothing is
entered, mapped or loaded. -/
theorem act_placed (h : w.Kept) (a : Action β) :
    Unmoved w (w.act a) ∨
      ∃ id p name e unit template, Placed w (w.act a) id p name e unit template := by
  have hsettle : ∀ w₁ : Workspace β δ, Unmoved w w₁ → Unmoved w w₁.settle := fun w₁ hmoved =>
    settle_preserves (Unmoved w) (fun _ h => ⟨h.entry, h.mapped, h.unit, h.pools⟩) hmoved
  cases a with
  | register scope component name template =>
    rcases w.addComponent_placed scope component name template with
      ⟨houtline, hvault⟩ | ⟨p, unit, k, hplaced⟩
    · refine Or.inl (.of_outline houtline ?_)
      rw [Workspace.act, hvault]
    · exact Or.inr ⟨scope, p, name, _, unit, template, hplaced⟩
  | addPool =>
    refine Or.inl ⟨rfl, rfl, rfl, fun p hp => ?_⟩
    rcases List.mem_append.mp hp with hp | hp
    · exact Or.inr hp
    · exact Or.inl (List.mem_singleton.mp hp)
  | addScope => exact Or.inl (.addScope rfl rfl)
  | addComponent | edit | list | openSession | dropSession | disturb =>
    exact Or.inl (.of_eq rfl rfl rfl)
  | attach scope =>
    exact Or.inl (hsettle _ ⟨entryOf?_of_components _ scope fun _ => rfl,
      mapped?_of_storages _ scope fun _ => rfl, rfl, fun p hp => Or.inr hp⟩)
  | unlist | release | releaseRegistry => exact Or.inl (hsettle _ (.of_eq rfl rfl rfl))
  | expand scope text forget =>
    obtain ⟨houtline, hvault⟩ := expandIn_effect text forget (w.withSubstitutors scope) w
    refine Or.inl (.of_outline houtline ?_)
    rw [Workspace.act, expandEach, hvault]
  | reinit scope names reload =>
    have heffect := reinit_effect w scope names reload
    exact Or.inl (.of_outline heffect.outline heffect.vault.unit)
  | save scope =>
    obtain ⟨hout, hunit⟩ := save_keeps w scope
    rw [Workspace.act, hout]
    exact Or.inl (.of_eq rfl rfl hunit)
  | saveSession handle =>
    rw [Workspace.act]
    exact Or.inl (.onSession h handle fun t p hp => (unit?_of_calls hp w.vault).1)
  | finishSession handle =>
    rw [Workspace.act]
    exact Or.inl (.onSession h handle fun t p hp => (unit?_of_calls hp w.vault).2.1)
  | resetSession handle =>
    rw [Workspace.act]
    exact Or.inl (.onSession h handle fun t p hp => (unit?_of_calls hp w.vault).2.2)

/-- **What scopes map** changes when a component is placed, and else not at all. -/
theorem happen_tables (h : w.Kept) (e : Event β) :
    ((w.happen e).entryOf? = w.entryOf? ∧ (w.happen e).mapped? = w.mapped?) ∨
      ∃ id p name entry unit template, Placed w (w.happen e) id p name entry unit template := by
  cases e with
  | act action =>
    exact (act_placed h action).imp_left fun hunmoved => ⟨hunmoved.entry, hunmoved.mapped⟩
  | openOwn handle scope => exact Or.inl ⟨rfl, rfl⟩
  | keepWrite handle p unit template states =>
    obtain ⟨_, w₁, sessions, hsupplied, hout, _⟩ := w.keepWrite_spec handle p unit template states
    rw [Workspace.happen, hout]
    cases hsupplied with
    | unread => exact Or.inl ⟨rfl, rfl⟩
    | loaded snapshot unused read => exact Or.inl ⟨rfl, rfl⟩

/-- What comes into pools. -/
inductive Stocked (w w' : Workspace β δ) : Prop where
  /-- Nothing does, unless a pool is new. -/
  | same (unit : w'.vault.unit? = w.vault.unit?) (pools : ∀ p ∈ w'.pools, p = [] ∨ p ∈ w.pools)
  /-- A storage does that has just been read. -/
  | loaded (s : Storage δ) (p : PoolId) (read : w.vault.readSnapshot s.unit = .ok s.snapshot)
      (storages : w'.vault.storages = w.vault.storages ++ [s])
      (pools : w'.pools
        = w.pools.set p (Bindings.insert (w.pool p) s.unit.location w.vault.storages.length))

omit [DecidableEq δ] in
theorem Unmoved.stocked {w' : Workspace β δ} (h : Unmoved w w') : Stocked w w' :=
  .same h.unit h.pools

omit [DecidableEq δ] in
theorem Placed.stocked {w' : Workspace β δ} {id : ScopeId} {name : String} {e : Entry}
    (h : Placed w w' id p name e unit template) : Stocked w w' := by
  cases h.storage with
  | known storages pools found =>
    refine .same ?_ fun p hp => Or.inr (pools ▸ hp)
    funext k
    rw [Vault.unit?, Vault.unit?, Vault.storage?, Vault.storage?, storages]
  | loaded snapshot read number storages unused pools =>
    rw [number] at pools
    exact .loaded _ p read storages pools

/-- **Whatever comes into a pool has just been read.** -/
theorem happen_stocked (h : w.Kept) (e : Event β) : Stocked w (w.happen e) := by
  cases e with
  | act action =>
    rcases act_placed h action with hunmoved | ⟨_, _, _, _, _, _, hplaced⟩
    · exact hunmoved.stocked
    · exact hplaced.stocked
  | openOwn handle scope => exact .same rfl fun p hp => Or.inr hp
  | keepWrite handle p unit template states =>
    obtain ⟨_, w₁, sessions, hsupplied, hout, _⟩ := w.keepWrite_spec handle p unit template states
    rw [Workspace.happen, hout]
    cases hsupplied with
    | unread => exact .same rfl fun p hp => Or.inr hp
    | loaded snapshot unused read => exact .loaded _ p read rfl rfl

end Happening

end Workspace

end ScopedState
