/-
`Proofs/Workspace/Coherent.lean` -- scopes of one pool that nobody else
interferes with.

As long as all scopes draw from one pool and nobody else edits the store, every
storage in use describes its unit, and no two of them are about the same unit.
The pool sees to the second (`Pooled`). To the first it matters that a write
that the store takes is remembered, and that no other storage in use is about
the unit that was written.

So a workspace is coherent when all storages in use are in the pool and describe
their units, and the staged writes of the open sessions fit. Where an action
puts nothing into use that was not, only the storages that it touches have to be
looked at; registering a component is the one that does.
-/
import ScopedState.Proofs.Workspace.Pooled
set_option autoImplicit false

namespace ScopedState

open Bindings (Sorted get?)

variable {β δ : Type}

namespace Workspace

open SessionTree (parts)

/-! ## 1. Coherent workspaces -/

section Coherence

variable [Backing β] [LawfulBacking β] [Digest δ]

/-- The staged writes of all sessions fit. -/
def SessionsFit (sessions : Bindings String (SessionTree (ScopeSession δ))) (v : Vault β δ) :
    Prop :=
  ∀ e ∈ sessions, ∀ s ∈ e.2.parts, ∀ write ∈ s.staged, write.Fits v

/-- One pool has all storages in use, and these describe their units. -/
structure Coherent (w : Workspace β δ) : Prop where
  pool : 0 < w.pools.length
  onePool : ∀ s ∈ w.scopes, s.pool = 0
  pooled : ∀ k l, w.inUse k = true → w.vault.location? k = some l →
    get? (w.pool 0) l = some k
  describes : ∀ k s, w.inUse k = true → w.vault.storage? k = some s →
    s.snapshot.Describes (w.vault.contents s.unit.location)
  fits : SessionsFit w.sessions w.vault

variable {w w' : Workspace β δ}

theorem Coherent.onPool (h : w.Coherent) : w.Pooled := ⟨h.pool, h.onePool, h.pooled⟩

/-- The storages in use are coherent. -/
theorem Coherent.coherentOn (h : w.Coherent) :
    w.vault.CoherentOn fun k => w.inUse k = true :=
  ⟨h.describes, fun _ _ _ hk hk' hl hl' => h.onPool.unique hk hk' hl hl'⟩

/-- One pool has all storages in use, these stay coherent, and sessions still
fit. -/
theorem Coherent.of_pooled (h : w.Coherent) (hpooled : w'.Pooled)
    (hunit : w'.vault.unit? = w.vault.unit?)
    (hcoherent : (w.vault.CoherentOn fun k => w.inUse k = true) →
      w'.vault.CoherentOn fun k => w.inUse k = true)
    (huse : ∀ k, w'.inUse k = true → w.inUse k = true)
    (hfits : SessionsFit w'.sessions w.vault) : w'.Coherent :=
  ⟨hpooled.pool, hpooled.onePool, hpooled.pooled,
    fun k s hk => (hcoherent h.coherentOn).describes k s (huse k hk),
    fun e he s hs write hwrite =>
      (hfits e he s hs write hwrite).of_keeps (Vault.Keeps.of_eq hunit)⟩

/-- Path variables do not matter, nor does a step that keeps the storages in use
coherent. -/
theorem Coherent.of_outline (h : w.Coherent) (houtline : w'.outline = w.outline)
    (hunit : w'.vault.unit? = w.vault.unit?)
    (hcoherent : ∀ used, w.vault.CoherentOn used → w'.vault.CoherentOn used) : w'.Coherent := by
  have hsessions : w'.outline.sessions = w.outline.sessions :=
    congrArg Workspace.sessions houtline
  refine h.of_pooled (h.onPool.of_outline houtline hunit) hunit (hcoherent _)
    (fun k hk => ?_) fun e he => ?_
  · rw [← inUse_of_outline houtline]
    exact hk
  · have he' : e ∈ w.outline.sessions := hsessions ▸ he
    exact h.fits e he'

/-- Registries do not matter, nor does what the caller holds. -/
theorem Coherent.withRegistries (h : w.Coherent) (registries : List (List ScopeId))
    (held : List ScopeId) (heldRegistries : List RegistryId) :
    Coherent { w with registries, held, heldRegistries } :=
  h.of_pooled (h.onPool.withRegistries registries held heldRegistries) rfl id
    (fun _ hk => hk) h.fits

/-- Fewer scopes in use. -/
theorem Coherent.sweep (h : w.Coherent) : w.sweep.Coherent :=
  h.of_pooled h.onPool.sweep rfl id (fun _ => inUse_sweep) h.fits

theorem Coherent.settle (h : w.Coherent) : w.settle.Coherent :=
  settle_preserves Coherent (fun _ h => h.sweep) h

/-! ## 2. Scopes -/

/-- A scope of the first pool more. -/
theorem Coherent.addScope (h : w.Coherent) (hclosed : w.Closed) {s : Scope} (hpool : s.pool = 0)
    (hstorages : s.storages = []) : (w.addScope s).2.Coherent :=
  h.of_pooled (h.onPool.addScope hclosed hpool hstorages) rfl id
    (fun _ => inUse_addScope hclosed hstorages) h.fits

/-- A scope changes, and keeps its storages and its pool. -/
theorem Coherent.modifyScope (h : w.Coherent) (id : ScopeId) {f : Scope → Scope}
    (hstorages : ∀ s, (f s).storages = s.storages) (hpool : ∀ s, (f s).pool = s.pool) :
    (w.modifyScope id f).Coherent :=
  h.of_pooled (h.onPool.modifyScope id hstorages hpool) rfl (fun hv => hv)
    (fun _ => inUse_modifyScope id hstorages) h.fits

/-- A unit is mapped to a storage that was in use. -/
theorem Coherent.mapUnit (h : w.Coherent) (id : ScopeId) (unit : Path) {k : StorageId}
    (hk : w.inUse k = true) : (w.mapUnit id unit k).Coherent := by
  refine h.of_pooled (h.onPool.mapUnit id unit hk) rfl (fun hv => hv) (fun j hj => ?_) h.fits
  rcases inUse_mapUnit hj with hj | rfl
  · exact hj
  · exact hk

/-- **A unit is mapped to a storage that was loaded for it**, and that describes
it. -/
theorem Coherent.mapNew (h : w.Coherent) (id : ScopeId) {unit : Path} {template : String}
    {snapshot : Snapshot δ} (hfind : (w.pool 0).find? w.inUse unit = none)
    (hread : w.vault.readSnapshot unit = .ok snapshot) :
    ((w.addStorage 0 { unit, template, snapshot }).mapUnit id unit
      w.vault.storages.length).Coherent := by
  have hstorage := w.vault.storage?_addStorage { unit, template, snapshot }
  have hkeeps := w.vault.keeps_addStorage { unit, template, snapshot }
  have hpooled : ((w.addStorage 0 { unit, template, snapshot }).mapUnit id unit
      w.vault.storages.length).Pooled := h.onPool.mapNew id hfind
  refine ⟨hpooled.pool, hpooled.onePool, hpooled.pooled, fun k s hk hs => ?_,
    fun e he s hs write hwrite => (h.fits e he s hs write hwrite).of_keeps hkeeps⟩
  have hs' := (hstorage k).symm.trans hs
  split at hs'
  · rw [← Option.some.inj hs']
    exact Vault.describes_of_readSnapshot hread
  · rename_i hnew
    exact h.describes k s ((inUse_mapUnit hk).resolve_right hnew) hs'

/-- **Registering a component** keeps a workspace coherent. -/
theorem Coherent.addComponent [DecidableEq δ] (h : w.Coherent) (id : ScopeId)
    (component : ComponentId) (name template : String) :
    (w.addComponent id component name template).2.Coherent := by
  rcases w.addComponent_cases id component name template with
    ⟨houtline, hvault⟩ | ⟨w₁, s, unit, k, w₂, houtline, hvault, hs, hfound, hout⟩
  · exact h.of_outline houtline (by rw [hvault]) (by rw [hvault]; exact fun _ h => h)
  · have hcoherent₁ : w₁.Coherent :=
      h.of_outline houtline (by rw [hvault]) (by rw [hvault]; exact fun _ h => h)
    have hpool : s.pool = 0 := hcoherent₁.onePool s (List.mem_of_getElem? hs)
    have hcoherent₂ : w₂.Coherent := by
      rcases storageFor_cases hfound with
        ⟨_, _, rfl⟩ | ⟨_, ⟨_, huse, rfl⟩ | ⟨snapshot, hfind, hread, rfl, rfl⟩⟩
      · exact hcoherent₁
      · exact hcoherent₁.mapUnit id unit huse
      · rw [hpool] at hfind ⊢
        exact hcoherent₁.mapNew id hfind hread
    have heffect := loadComponent_effect w₂ id name ⟨component, k⟩
    have hcoherent₃ := hcoherent₂.of_outline heffect.outline heffect.vault.unit
      heffect.vault.coherent
    rw [hout]
    exact hcoherent₃.modifyScope id (fun _ => rfl) fun _ => rfl

/-! ## 3. Sessions -/

/-- A part of a session refers to storages in use, and what it has staged fits. -/
def Fitting (w : Workspace β δ) (s : ScopeSession δ) : Prop :=
  (∀ k, Refers s k → w.inUse k = true) ∧ ∀ write ∈ s.staged, write.Fits w.vault

/-- A session with such parts. -/
theorem Coherent.withSession (h : w.Coherent) {v : Vault β δ} (hunit : v.unit? = w.vault.unit?)
    (hcoherent : v.CoherentOn fun k => w.inUse k = true) (handle : String)
    {t : SessionTree (ScopeSession δ)} (ht : ∀ s ∈ t.parts, w.Fitting s) :
    Coherent { w with vault := v, sessions := Bindings.insert w.sessions handle t } := by
  have huse : ∀ k, Workspace.inUse
      { w with vault := v, sessions := Bindings.insert w.sessions handle t } k = true →
        w.inUse k = true := fun k => inUse_withSession fun s hs => (ht s hs).1 k
  refine h.of_pooled (h.onPool.of_fewer h.pool rfl h.onePool hunit huse) hunit
    (fun _ => hcoherent) huse ?_
  exact forall_mem_insert_sessions (P := fun t => ∀ s ∈ t.parts, ∀ write ∈ s.staged,
    write.Fits w.vault) h.fits handle fun s hs => (ht s hs).2

/-- **A call on a session** keeps a workspace coherent when its parts stay such. -/
theorem Coherent.onSession (h : w.Coherent) (hkept : w.Kept) (handle : String)
    {call : SessionTree (ScopeSession δ) → Vault β δ → SessionTree (ScopeSession δ) × Vault β δ}
    (hcall : ∀ t p, t.Uniform p → (∀ s ∈ t.parts, w.Fitting s) →
      (call t w.vault).2.unit? = w.vault.unit? ∧
      ((call t w.vault).2.CoherentOn fun k => w.inUse k = true) ∧
      ∀ s ∈ (call t w.vault).1.parts, w.Fitting s) :
    (w.onSession handle call).Coherent := by
  unfold Workspace.onSession
  split
  · exact h
  · rename_i t ht
    have hmem := Bindings.mem_of_get? ht
    obtain ⟨p, hp⟩ := hkept.sessions _ hmem
    have hused : ∀ s ∈ t.parts, ∀ k, Refers s k → w.inUse k = true :=
      fun s hs k hk => (inUse_iff w k).mpr (Or.inr ⟨_, hmem, s, hs, hk⟩)
    obtain ⟨hunit, hcoherent, hparts⟩ :=
      hcall t p hp fun s hs => ⟨hused s hs, h.fits _ hmem s hs⟩
    exact h.withSession hunit hcoherent handle hparts

theorem coherent_start (backing : β) : (start backing : Workspace β δ).Coherent := by
  have hpooled : (start backing : Workspace β δ).Pooled := pooled_start backing
  refine ⟨hpooled.pool, hpooled.onePool, hpooled.pooled, fun k s _ hs => ?_,
    fun e he => absurd he List.not_mem_nil⟩
  cases hs

variable [DecidableEq δ]

/-- **The calls on a session** leave such parts. What is staged is for the units of the
layout, and those were referred to before. -/
theorem Coherent.calls (h : w.Coherent) {t : SessionTree (ScopeSession δ)} {p : Phase}
    (hp : t.Uniform p) (ht : ∀ s ∈ t.parts, w.Fitting s) :
    (∀ s ∈ (t.save w.vault).session.parts, w.Fitting s) ∧
      (∀ s ∈ (t.finish w.vault).session.parts, w.Fitting s) ∧
      ∀ s ∈ (t.reset w.vault).session.parts, w.Fitting s := by
  refine SessionTree.forall_parts_of_calls (P := w.Fitting) hp w.vault ht ?_ ?_
  · rintro s ⟨hused, _⟩
    have hlayout : ∀ slot ∈ s.layout, w.inUse slot.storage = true :=
      fun slot hslot => hused _ (Or.inl ⟨slot, hslot, rfl⟩)
    refine ⟨?_, ScopeSession.fits_of_due h.coherentOn hlayout⟩
    rintro k (⟨slot, hslot, rfl⟩ | ⟨write, hwrite, rfl⟩)
    · exact hlayout slot hslot
    · obtain ⟨slot, hslot, hstorage⟩ := ScopeSession.storage_of_due hwrite
      exact hstorage ▸ hlayout slot hslot
  · rintro q s ⟨hused, _⟩
    exact ⟨fun k hk => hused k (refers_of_endedIn hk),
      fun write hwrite => absurd hwrite List.not_mem_nil⟩

theorem Coherent.saveSession (h : w.Coherent) (hkept : w.Kept) (handle : String) :
    (w.onSession handle fun t v => ((t.save v).session, (t.save v).world)).Coherent := by
  refine h.onSession hkept handle fun t p hp ht => ?_
  obtain ⟨_, _, _, hworld, _, _⟩ := uniform_calls hp w.vault
  simp only [hworld]
  exact ⟨trivial, h.coherentOn, (h.calls hp ht).1⟩

theorem Coherent.finishSession (h : w.Coherent) (hkept : w.Kept) (handle : String) :
    (w.onSession handle fun t v => ((t.finish v).session, (t.finish v).world)).Coherent := by
  refine h.onSession hkept handle fun t p hp ht => ?_
  obtain ⟨_, _, _, _, hunit, _⟩ := uniform_calls hp w.vault
  refine ⟨hunit, ?_, (h.calls hp ht).2.1⟩
  cases hterminal : p.isTerminal with
  | true =>
    rw [(SessionTree.calls_of_ended hterminal hp w.vault).2.1]
    exact h.coherentOn
  | false =>
    rw [(SessionTree.finish_spec t (hp.ready hterminal) w.vault).1]
    refine Turn.coherentOn_perform h.coherentOn fun write hwrite => ?_
    rw [SessionTree.writes_eq] at hwrite
    obtain ⟨s, hs, hwrite⟩ := List.mem_flatMap.mp hwrite
    obtain ⟨staged, hstaged, rfl⟩ := List.mem_map.mp hwrite
    exact ⟨(ht s hs).2 staged hstaged, (ht s hs).1 _ (Or.inr ⟨staged, hstaged, rfl⟩)⟩

theorem Coherent.resetSession (h : w.Coherent) (hkept : w.Kept) (handle : String) :
    (w.onSession handle fun t v => ((t.reset v).session, (t.reset v).world)).Coherent := by
  refine h.onSession hkept handle fun t p hp ht => ?_
  obtain ⟨_, _, _, _, _, hworld⟩ := uniform_calls hp w.vault
  simp only [hworld]
  exact ⟨trivial, h.coherentOn, (h.calls hp ht).2.2⟩

/-- **Saving** keeps a workspace coherent, whatever the store refuses. -/
theorem Coherent.save (h : w.Coherent) (hclosed : w.Closed) {id : ScopeId} (hid : id ∈ w.live) :
    (w.save id).2.Coherent := by
  rcases w.save_cases id with ⟨hout, _⟩ | ⟨hout, _⟩
  · rw [hout]
    have hunit := Turn.unit?_perform (w.stagedOn id w.vault).writes w.vault
    refine h.of_pooled (h.onPool.of_fewer h.pool rfl h.onePool hunit fun _ hk => hk) hunit
      (fun _ => Turn.coherentOn_perform h.coherentOn fun write hwrite => ?_) (fun _ hk => hk) h.fits
    rw [(w.stagedOn_spec id w.vault).2] at hwrite
    obtain ⟨k, hk, hwrite⟩ := List.mem_flatMap.mp hwrite
    obtain ⟨staged, hstaged, rfl⟩ := List.mem_map.mp hwrite
    -- Only here it matters that what is below a scope in use is in use.
    have hlive := hclosed.tree hid k ((ScopeTree.mem_postorder _ k).mp hk)
    have hlayout : ∀ slot ∈ (w.openScope k).layout, w.inUse slot.storage = true :=
      fun slot hslot => inUse_of_openScope hlive hslot
    obtain ⟨slot, hslot, hstorage⟩ := ScopeSession.storage_of_due hstaged
    exact ⟨ScopeSession.fits_of_due h.coherentOn hlayout staged hstaged,
      hstorage ▸ hlayout slot hslot⟩
  · rw [hout]
    exact h

/-! ## 4. All actions -/

/-- **Every action keeps a workspace coherent**, as long as all scopes share the
first pool and nobody else edits the store. -/
theorem Coherent.act (h : w.Coherent) (hkept : w.Kept) (hclosed : w.Closed) {a : Action β}
    (hallowed : a.Alone) (hpossible : w.Possible a) : (w.act a).Coherent := by
  cases a with
  | addPool => exact h.of_pooled h.onPool.addPool rfl id (fun _ hk => hk) h.fits
  | addScope name substitutor pool => exact h.addScope hclosed hallowed rfl
  | addComponent component => exact h.of_outline rfl rfl fun _ hv => hv.congr rfl rfl
  | attach scope =>
    exact Coherent.settle ((h.withRegistries _ _ _).modifyScope scope (fun _ => rfl) fun _ => rfl)
  | list registry scope => exact h.withRegistries _ _ _
  | unlist registry scope =>
    exact Coherent.settle (h.withRegistries _ _ _)
  | release scope =>
    exact Coherent.settle (h.withRegistries _ _ _)
  | releaseRegistry registry =>
    exact Coherent.settle (h.withRegistries _ _ _)
  | register scope component name template => exact h.addComponent scope component name template
  | edit component change => exact h.of_outline rfl rfl fun _ hv => hv.congr rfl rfl
  | expand scope text forget =>
    obtain ⟨houtline, hvault⟩ := expandIn_effect text forget (w.withSubstitutors scope) w
    refine h.of_outline houtline ?_ ?_
    · rw [Workspace.act, expandEach, hvault]
    · rw [Workspace.act, expandEach, hvault]
      exact fun _ hv => hv
  | reinit scope names reload =>
    have heffect := reinit_effect w scope names reload
    exact h.of_outline heffect.outline heffect.vault.unit heffect.vault.coherent
  | save scope => exact h.save hclosed (hpossible scope rfl)
  | openSession handle scope =>
    refine h.withSession rfl h.coherentOn handle fun s hs => ?_
    obtain ⟨hrefers, hstaged⟩ := refers_of_startSave hclosed (hpossible scope rfl) s hs
    refine ⟨hrefers, fun write hwrite => ?_⟩
    rw [hstaged] at hwrite
    cases hwrite
  | saveSession handle =>
    rw [Workspace.act]
    exact h.saveSession hkept handle
  | finishSession handle =>
    rw [Workspace.act]
    exact h.finishSession hkept handle
  | resetSession handle =>
    rw [Workspace.act]
    exact h.resetSession hkept handle
  | dropSession handle =>
    exact h.of_pooled h.onPool.dropSession rfl id (fun _ => inUse_dropSession)
      fun e he => h.fits e (List.mem_filter.mp he).1
  | disturb change =>
    refine h.of_outline rfl rfl fun _ hv => hv.congr ?_ rfl
    funext l
    exact hallowed w.vault.backing l

/-- **Every workspace that actions of one caller lead to is coherent.** -/
theorem Reachable.coherent (h : w.Reachable Action.Alone) :
    w.Kept ∧ w.Closed ∧ w.Coherent := by
  obtain ⟨backing, hsteps⟩ := h
  refine hsteps.preserves (fun w => w.Kept ∧ w.Closed ∧ w.Coherent) ?_
    ⟨kept_start backing, closed_start backing, coherent_start backing⟩
  rintro w a ⟨hkept, hclosed, hcoherent⟩ hallowed hpossible
  exact ⟨(hkept.act a).1, hclosed.act hpossible, hcoherent.act hkept hclosed hallowed hpossible⟩

end Coherence

end Workspace

end ScopedState
