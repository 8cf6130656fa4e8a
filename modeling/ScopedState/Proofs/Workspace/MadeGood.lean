/-
`Proofs/Workspace/MadeGood.lean` -- making a failed save good.

A save that is refused some of its writes leaves units behind that have been
written, others that have not, and units that some scopes have written and others
have not. Nothing of what it staged is kept. But whatever was taken is
remembered, and what was refused is not; so a second save, with nothing refused
any more, stages for every scope what is missing, and carries it out.

In the end every unit is as it would be if nothing had been refused in the first
place, with the same bytes and digest, and the documents in memory are written
alike. For a unit whose content is also the text of another document than the one
in memory that need not be so: there a state can be taken for written although
the document has another one, and it depends on the course of the writes which
one is written in the end.
-/
import ScopedState.Proofs.Storage.Retried
import ScopedState.Proofs.Storage.Return
import ScopedState.Proofs.Workspace.Again
import ScopedState.Proofs.Workspace.ReadOnly
set_option autoImplicit false

namespace ScopedState

open Bindings (Sorted get?)

variable {β δ : Type}

/-! ## 1. Stores that take every write -/

section Willing

variable [Backing β] [DecidableEq δ] [Digest δ]

/-- **A store that takes every write**, and goes on to do so after any writes. -/
def Backing.Willing (b : β) : Prop :=
  ∃ holds : β → Prop, holds b ∧ ∀ b, holds b → ∀ unit, Backing.isWritable b unit = true ∧
    ∀ bytes, (Backing.write b unit bytes).1 = .ok () ∧ holds (Backing.write b unit bytes).2

theorem Backing.Willing.writable {b : β} (h : Backing.Willing b) (unit : Path) :
    Backing.isWritable b unit = true := by
  obtain ⟨holds, hb, hstep⟩ := h
  exact (hstep b hb unit).1

theorem Backing.Willing.write {b : β} (h : Backing.Willing b) (unit : Path) (bytes : Bytes) :
    (Backing.write b unit bytes).1 = .ok () ∧
      Backing.Willing (Backing.write b unit bytes).2 := by
  obtain ⟨holds, hb, hstep⟩ := h
  obtain ⟨hok, hafter⟩ := (hstep b hb unit).2 bytes
  exact ⟨hok, holds, hafter, hstep⟩

/-- A willing store takes a staged write, if there is one to take. -/
theorem Vault.carryOut_of_willing {v : Vault β δ} (h : Backing.Willing v.backing)
    (w : StagedWrite δ) :
    (v.carryOut w).1 = .ok () ∧ Backing.Willing (v.carryOut w).2.backing := by
  rcases v.carryOut_cases w with
    ⟨_, hout⟩ | ⟨w', backing, _, hwrite, hout⟩ | ⟨w', backing, e, _, hwrite, hout⟩
  · rw [hout]
    exact ⟨rfl, h⟩
  · obtain ⟨_, hafter⟩ := h.write w'.unit w'.draft.bytes
    rw [hwrite] at hafter
    rw [hout]
    exact ⟨rfl, hafter⟩
  · obtain ⟨hok, _⟩ := h.write w'.unit w'.draft.bytes
    rw [hwrite] at hok
    cases hok

/-- **A willing store refuses no turn.** -/
theorem Turn.answer_of_willing {ws : List (String × StagedWrite δ)} {v : Vault β δ}
    (h : Backing.Willing v.backing) : ∀ turn ∈ Turn.all ws v, turn.answer = .ok () := by
  induction ws generalizing v with
  | nil => exact fun turn hturn => absurd hturn List.not_mem_nil
  | cons w ws ih =>
    obtain ⟨hok, hafter⟩ := Vault.carryOut_of_willing h w.2
    intro turn hturn
    rcases List.mem_cons.mp hturn with rfl | hturn
    · rw [← Turn.carryOut_outcome]
      exact hok
    · exact ih hafter turn hturn

end Willing

/-- A store in memory with no unit read-only is willing. -/
theorem Faulty.willing {f : Faulty} (hunwritable : f.unwritable = [])
    (hreadOnly : f.memory.readOnly = []) : Backing.Willing f := by
  refine ⟨fun f => f.unwritable = [] ∧ f.memory.readOnly = [], ⟨hunwritable, hreadOnly⟩, ?_⟩
  rintro f ⟨hunwritable, hreadOnly⟩ unit
  have hwritable : f.memory.isWritable unit = true := by
    rw [Memory.isWritable, hreadOnly]
    rfl
  refine ⟨?_, fun bytes => ?_⟩
  · show (f.optimistic || f.memory.isWritable unit) = true
    rw [hwritable, Bool.or_true]
  · have hwrite : f.write unit bytes = (.ok (), { f with memory :=
        { f.memory.putExternal unit bytes with writes := f.memory.writes + 1 } }) := by
      unfold Faulty.write Memory.write
      rw [hunwritable, if_neg (by simp), if_pos hwritable]
    have hwrite' : Backing.write f unit bytes = _ := hwrite
    rw [hwrite']
    exact ⟨rfl, hunwritable, hreadOnly⟩

namespace Workspace

/-! ## 2. What a save leaves alone -/

/-- Only the store has changed, and what is remembered of its units. -/
structure Beside (w w' : Workspace β δ) : Prop where
  rest : w' = { w with vault := w'.vault }
  unit : w'.vault.unit? = w.vault.unit?
  components : w'.vault.components = w.vault.components

namespace Beside

variable {w w' w'' : Workspace β δ} {root : ScopeId}

theorem refl (w : Workspace β δ) : w.Beside w := ⟨rfl, rfl, rfl⟩

theorem trans (h : w.Beside w') (h' : w'.Beside w'') : w.Beside w'' := by
  refine ⟨?_, h'.unit.trans h.unit, h'.components.trans h.components⟩
  rw [h'.rest, h.rest]

theorem outline (h : w.Beside w') : w'.outline = w.outline := by
  rw [h.rest]
  rfl

theorem scope? (h : w.Beside w') : w'.scope? = w.scope? := by
  rw [h.rest]
  rfl

theorem live (h : w.Beside w') : w'.live = w.live := by
  rw [h.rest]

theorem tree (h : w.Beside w') (root : ScopeId) : w'.tree root = w.tree root :=
  tree_of_outline h.outline root

theorem statesAt (h : w.Beside w') (l : Location) (id : ScopeId) :
    w'.statesAt l id = w.statesAt l id := by
  rw [h.rest]
  exact statesAt_withVault h.unit h.components l id

theorem maps_iff (h : w.Beside w') {id : ScopeId} {l : Location} {k : StorageId} :
    w'.Maps root id l k ↔ w.Maps root id l k := by
  rw [Maps, Maps, h.tree, h.scope?]

theorem noneFails (h : w.Beside w') (hnone : w.NoneFails root) : w'.NoneFails root := by
  intro id hid s hs c hc component hcomponent
  rw [h.tree] at hid
  rw [h.scope?] at hs
  have hsame : w'.vault.component? = w.vault.component? := by
    funext id
    rw [Vault.component?, h.components]
    rfl
  rw [hsame] at hcomponent
  exact hnone id hid s hs c hc component hcomponent

section Acting

variable [Backing β] [DecidableEq δ] [Digest δ]

theorem disturb (w : Workspace β δ) (change : β → β) : w.Beside (w.act (.disturb change)) :=
  ⟨rfl, rfl, rfl⟩

theorem save (w : Workspace β δ) (root : ScopeId) : w.Beside (w.save root).2 := by
  obtain ⟨hrest, hunit⟩ := w.save_keeps root
  refine ⟨hrest, hunit, ?_⟩
  rcases w.save_cases root with ⟨hout, _⟩ | ⟨hout, _⟩
  · rw [hout]
    exact Turn.components_perform _ _
  · rw [hout]

end Acting

end Beside

/-! ## 3. A save where all components tell -/

section Telling

variable [Backing β] [DecidableEq δ] [Digest δ] {w : Workspace β δ} {root : ScopeId}

/-- A tree in use where every component tells its state. -/
structure Tells (w : Workspace β δ) (root : ScopeId) : Prop where
  kept : w.Kept
  closed : w.Closed
  apart : w.Apart
  live : root ∈ w.live
  noneFails : w.NoneFails root

theorem tells_of_reachable (hw : w.Reachable Action.OnePool) (hroot : root ∈ w.live)
    (hnone : w.NoneFails root) : w.Tells root := by
  obtain ⟨hkept, hclosed, hpooled⟩ := hw.pooled
  exact ⟨hkept, hclosed, hpooled.apart, hroot, hnone⟩

/-- **A save that is not ended by read-only units** has staged all scopes, and goes well
when no write is refused. -/
theorem Tells.save_spec (h : w.Tells root)
    (hreport : ((w.startSave root).save w.vault).readOnly = []) :
    w.Stages root ∧
      (w.save root).2 = { w with vault := Turn.perform (w.stagedOn root w.vault).writes w.vault } ∧
      ((w.save root).1 = .ok () ↔
        ∀ turn ∈ Turn.all (w.stagedOn root w.vault).writes w.vault, turn.answer = .ok ()) := by
  obtain ⟨hworld, houtcome, hreadOnly⟩ := w.startSave_save root
  have htold : ∀ id ∈ (w.tree root).scopes, ((w.openScope id).save w.vault).outcome = .ok () := by
    intro id hid
    have hopen := w.openScope_isOpen id
    exact (ScopeSession.save_of_open hopen w.vault).2.2.1.mpr (h.noneFails.tells hid)
  have hstages : w.Stages root := ⟨h.kept, h.apart, h.closed.tree h.live, fun id hid =>
    ⟨htold id hid, hreadOnly.mp hreport id hid⟩⟩
  have hready := (w.stagedOn_spec root w.vault).1.ready rfl
  have hsession : ((w.startSave root).save w.vault).session = w.stagedOn root w.vault := rfl
  have hsave : w.save root = (((w.stagedOn root w.vault).finish w.vault).outcome,
      { w with vault := ((w.stagedOn root w.vault).finish w.vault).world }) := by
    unfold save
    simp only [hreport, List.isEmpty_nil, if_true, hworld, hsession, houtcome.mpr htold]
    rfl
  rw [hsave, (SessionTree.finish_spec _ hready w.vault).1]
  exact ⟨hstages, rfl, finish_eq_ok_iff hready w.vault⟩

/-- **A willing store takes the whole save.** -/
theorem Tells.save_of_willing (h : w.Tells root) (hwilling : Backing.Willing w.vault.backing) :
    (w.save root).1 = .ok () := by
  have hreport : ((w.startSave root).save w.vault).readOnly = [] := by
    refine (w.startSave_save root).2.2.mpr fun id hid => ?_
    have hopen := w.openScope_isOpen id
    rw [(ScopeSession.save_of_open hopen w.vault).2.2.2 (h.noneFails.tells hid),
      List.map_eq_nil_iff, List.filter_eq_nil_iff]
    intro x _
    rw [ScopeSession.writable, hwilling.writable]
    exact Bool.false_ne_true
  exact (h.save_spec hreport).2.2.mpr (Turn.answer_of_willing hwilling)

/-- **A stage of a course**: a workspace that is reached from another one, where every
component still tells and the same scopes have the same to say. -/
structure OnCourse (w : Workspace β δ) (root : ScopeId) (v : Workspace β δ) : Prop where
  reached : v.Reachable Action.OnePool
  beside : w.Beside v
  tells : v.Tells root

namespace OnCourse

variable {v : Workspace β δ}

theorem start (hw : w.Reachable Action.OnePool) (hroot : root ∈ w.live)
    (hnone : w.NoneFails root) : w.OnCourse root w :=
  ⟨hw, .refl w, tells_of_reachable hw hroot hnone⟩

/-- Whatever leaves the scopes with the same to say goes on with the course. -/
theorem step (h : w.OnCourse root v) {v' : Workspace β δ} (hreached : v'.Reachable Action.OnePool)
    (hbeside : v.Beside v') : w.OnCourse root v' :=
  ⟨hreached, h.beside.trans hbeside, tells_of_reachable hreached
    (hbeside.live ▸ h.tells.live) (hbeside.noneFails h.tells.noneFails)⟩

theorem disturb (h : w.OnCourse root v) (change : β → β) :
    w.OnCourse root (v.act (.disturb change)) :=
  h.step (h.reached.steps (.act (.disturb change) (.refl v) trivial fun id hid => by cases hid))
    (.disturb v change)

theorem save (h : w.OnCourse root v) : w.OnCourse root (v.save root).2 := by
  have hpossible : ∀ id, (Action.save root : Action β).scope? = some id → id ∈ v.live := by
    intro id hid
    rw [← Option.some.inj hid]
    exact h.tells.live
  exact h.step (h.reached.steps (.act (.save root) (.refl v) trivial hpossible)) (.save v root)

end OnCourse

end Telling

/-! ## 4. One unit -/

section Units

variable [Backing β] [LawfulBacking β] [DecidableEq δ] [Digest δ] {w : Workspace β δ}
  {root id : ScopeId} {l : Location} {k : StorageId} {s : Storage δ} {content : Option Bytes}

/-- The states of the scopes of a tree at a location. -/
def allStatesAt (w : Workspace β δ) (root : ScopeId) (l : Location) : List States :=
  (w.tree root).scopes.map (w.statesAt l)

omit [Backing β] [LawfulBacking β] [DecidableEq δ] [Digest δ] in
theorem Beside.allStatesAt {w' : Workspace β δ} (h : w.Beside w') (root : ScopeId)
    (l : Location) : w'.allStatesAt root l = w.allStatesAt root l := by
  rw [Workspace.allStatesAt, h.tree, Workspace.allStatesAt]
  exact List.map_congr_left fun id _ => h.statesAt l id

omit [Backing β] [LawfulBacking β] [DecidableEq δ] [Digest δ] in
theorem Beside.rememberedAt {w' : Workspace β δ} (h : w.Beside w') (root : ScopeId) (l : Location)
    (content : Option Bytes) (d : Document) :
    w'.rememberedAt root l content d = w.rememberedAt root l content d := by
  unfold Workspace.rememberedAt
  simp only [h.tree, h.statesAt]

omit [Backing β] [LawfulBacking β] [DecidableEq δ] [Digest δ] in
/-- **The scopes write for themselves** where no two of them keep a component of one
name at one location. -/
theorem unshared_allStatesAt (hkept : w.Kept) (hdisjoint : w.Disjoint root) (l : Location) :
    Unshared (w.allStatesAt root l) := by
  intro s hs t ht n hx hy
  obtain ⟨id, hid, rfl⟩ := List.mem_map.mp hs
  obtain ⟨id', hid', rfl⟩ := List.mem_map.mp ht
  obtain ⟨x, hx⟩ := Option.isSome_iff_exists.mp hx
  obtain ⟨y, hy⟩ := Option.isSome_iff_exists.mp hy
  obtain ⟨u, hu, hul⟩ := unitOf?_of_statesAt hkept hx
  obtain ⟨u', hu', hul'⟩ := unitOf?_of_statesAt hkept hy
  rw [hdisjoint id hid id' hid' n u u' hu hu' (hul.trans hul'.symm)]

/-- **What a save makes of a unit**, whatever is refused: a course of writes from what
was remembered. -/
theorem Tells.exists_taken (h : w.Tells root) (hfaithful : Digest.Faithful δ)
    (hunshared : Unshared (w.allStatesAt root l)) (hmaps : w.Maps root id l k)
    (hs : w.vault.storage? k = some s) (hdescribes : s.snapshot.Describes content)
    (hplain : (w.rememberedAt root l content s.snapshot.document).Plain) :
    ∃ s' taken, (w.save root).2.vault.storage? k = some s' ∧ s'.unit = s.unit ∧
      Taken (w.allStatesAt root l) s.snapshot (w.vault.contents l) taken
        ((w.save root).2.vault.contents l) s'.snapshot := by
  by_cases hreport : ((w.startSave root).save w.vault).readOnly = []
  · -- The writes of the save are those that were staged on what is remembered.
    obtain ⟨hstages, hout, _⟩ := h.save_spec hreport
    obtain rfl := unit_of_maps h.kept hmaps hs
    have himages : Images (w.rememberedAt root s.unit.location content s.snapshot.document) false
        content s.snapshot := (Tracks.of_describes hdescribes _).images
    have hall := owned_statesAt h.kept root s.unit.location content s.snapshot.document
    have hws : ∀ x ∈ (w.stagedOn root w.vault).writes,
        (x.2.storage = k → x.2.unit = s.unit ∧ x.2.draft.Initial
            (w.rememberedAt root s.unit.location content s.snapshot.document)
            (w.allStatesAt root s.unit.location) ∧
          s.snapshot.stage x.2.draft.states ≠ none) ∧
        (x.2.storage ≠ k → x.2.unit.location ≠ s.unit.location) := by
      intro x hx
      obtain ⟨hmine, hother⟩ := initial_of_write hstages hmaps hs hdescribes hx
      refine ⟨fun hk => ?_, hother⟩
      obtain ⟨j, draft, _, hstage, hx'⟩ := (write_for hstages hmaps hs hx).1 hk
      refine ⟨(hmine hk).1, (hmine hk).2, ?_⟩
      rw [hx', (Snapshot.stage_eq_some hstage).1]
      exact fun hnone => Option.some_ne_none _ (hstage.symm.trans hnone)
    rw [hout]
    exact Turn.exists_taken hfaithful hplain hdescribes.absent hunshared hall hs himages hws
  · -- Read-only units have ended the save, and nothing has changed.
    rw [save_of_readOnly hreport]
    exact ⟨s, [], hs, rfl, Taken.refl _ _ _⟩

omit [Backing β] [LawfulBacking β] in
/-- **A unit that has been written is plain**, and one that has not been is as plain as
it was. -/
theorem plain_of_taken {all : List States} {s' : Storage δ} {disk₀ disk content' : Option Bytes}
    {taken : List States} (hfaithful : Digest.Faithful δ)
    (h : Taken all s.snapshot disk₀ taken disk s'.snapshot)
    (hdescribes : s'.snapshot.Describes content')
    (hplain : ∀ content, s.snapshot.Describes content →
      (w.rememberedAt root l content s.snapshot.document).Plain) :
    (w.rememberedAt root l content' s'.snapshot.document).Plain := by
  by_cases hnil : taken = []
  · have hsame := (h.untouched hnil).2
    rw [hsame] at hdescribes ⊢
    exact hplain content' hdescribes
  · -- Whatever was written last is the text of what is remembered.
    have htext : content' = some s'.snapshot.document.serialize := by
      refine content_eq_of_hash_eq (δ := δ) hfaithful ?_
      rw [← hdescribes.hash, (h.written hnil).2]
      rfl
    exact Origin.Plain.of_text htext

/-- **A save that goes well leaves nothing to write** for a unit that was plain. -/
theorem Tells.nothing_left (h : w.Tells root) (hsourced : w.vault.Sourced)
    (hfaithful : Digest.Faithful δ) (hunshared : ∀ l, Unshared (w.allStatesAt root l))
    (hok : (w.save root).1 = .ok ()) (hmaps : w.Maps root id l k)
    (hs : w.vault.storage? k = some s) (hplain : ∀ content, s.snapshot.Describes content →
      (w.rememberedAt root l content s.snapshot.document).Plain) :
    ∃ s', (w.save root).2.vault.storage? k = some s' ∧
      ∀ states ∈ w.allStatesAt root l, s'.snapshot.stage states = none := by
  obtain ⟨hstages, hout, hturns⟩ := stages_of_save h.kept h.closed h.apart h.live hok
  have hunanimous : w.Unanimous root := fun l => (hunshared l).consistent
  rw [← Vault.snapshot_eq hs] at hplain
  obtain ⟨s', hs', hnothing⟩ :=
    Workspace.nothing_left hstages hsourced hfaithful hunanimous hturns hmaps hplain
  rw [hout]
  refine ⟨s', hs', fun states hstates => ?_⟩
  obtain ⟨j, hj, rfl⟩ := List.mem_map.mp hstates
  exact hnothing j hj

/-- **One save of a course of events**, seen from a workspace that has the same to say: it
takes some of the writes, and leaves nothing to write if it goes well. -/
theorem OnCourse.exists_taken {v : Workspace β δ} (h : w.OnCourse root v)
    (hfaithful : Digest.Faithful δ)
    (hunshared : ∀ l, Unshared (w.allStatesAt root l)) (hmaps : w.Maps root id l k)
    (hs : v.vault.storage? k = some s) (hplain : ∀ content, s.snapshot.Describes content →
      (w.rememberedAt root l content s.snapshot.document).Plain) :
    ∃ s' taken, (v.save root).2.vault.storage? k = some s' ∧ s'.unit = s.unit ∧
      Taken (w.allStatesAt root l) s.snapshot (v.vault.contents l) taken
        ((v.save root).2.vault.contents l) s'.snapshot ∧
      ((v.save root).1 = .ok () →
        ∀ states ∈ w.allStatesAt root l, s'.snapshot.stage states = none) := by
  have hsourced := h.reached.sourced.vault
  obtain ⟨content, hdescribes⟩ := hsourced k s hs
  have hmaps' : v.Maps root id l k := h.beside.maps_iff.mpr hmaps
  simp only [← h.beside.allStatesAt, ← h.beside.rememberedAt] at hunshared hplain ⊢
  obtain ⟨s', taken, hs', hunit, htaken⟩ :=
    h.tells.exists_taken hfaithful (hunshared l) hmaps' hs hdescribes (hplain content hdescribes)
  refine ⟨s', taken, hs', hunit, htaken, fun hok => ?_⟩
  obtain ⟨t, ht, hnothing⟩ :=
    h.tells.nothing_left hsourced hfaithful hunshared hok hmaps' hs hplain
  obtain rfl := Option.some.inj (ht.symm.trans hs')
  exact hnothing

/-- A location that no scope of the tree maps is left alone by a save. -/
theorem OnCourse.contents_of_unmapped {v : Workspace β δ} (h : w.OnCourse root v)
    (hunmapped : ∀ id k, ¬ w.Maps root id l k) :
    (v.save root).2.vault.contents l = v.vault.contents l := by
  by_cases hreport : ((v.startSave root).save v.vault).readOnly = []
  · obtain ⟨hstages, hout, _⟩ := h.tells.save_spec hreport
    rw [hout]
    exact contents_of_idle hstages fun id k s hmaps =>
      absurd (h.beside.maps_iff.mp hmaps) (hunmapped id k)
  · rw [save_of_readOnly hreport]

omit [LawfulBacking β] in
/-- A storage that no scope of the tree maps is left alone by a save. -/
theorem OnCourse.storage?_of_unmapped {v : Workspace β δ} (h : w.OnCourse root v)
    (hunmapped : ∀ id l, ¬ w.Maps root id l k) :
    (v.save root).2.vault.storage? k = v.vault.storage? k := by
  by_cases hreport : ((v.startSave root).save v.vault).readOnly = []
  · obtain ⟨hstages, hout, _⟩ := h.tells.save_spec hreport
    rw [hout]
    refine Turn.storage?_perform_other fun x hx hk => ?_
    obtain ⟨id, l, hmaps, _⟩ := write_at hstages hx
    rw [hk] at hmaps
    exact hunmapped id l (h.beside.maps_iff.mp hmaps)
  · rw [save_of_readOnly hreport]

end Units

/-! ## 5. Two courses of events -/

section Courses

variable [Backing β] [LawfulBacking β] [DecidableEq δ] [Digest δ] {w : Workspace β δ}
  {root : ScopeId} {refuse lift : β → β}

/-- Nothing has been written, to the store or to what is remembered. -/
structure Unwritten (w w' : Workspace β δ) : Prop where
  contents : w'.vault.contents = w.vault.contents
  storages : w'.vault.storage? = w.vault.storage?

/-- Refusing writes, or lifting that, writes nothing. -/
theorem unwritten_disturb (w : Workspace β δ) {change : β → β}
    (h : ∀ (b : β) l, LawfulBacking.contents (change b) l = LawfulBacking.contents b l) :
    w.Unwritten (w.act (.disturb change)) :=
  ⟨funext (h w.vault.backing), rfl⟩

/-- **Two saves come to what one comes to.** The first of the two may have been refused
any writes; the second goes well, and so does the single one. -/
theorem OnCourse.alike_of_ok {v v₁ v₂ : Workspace β δ} {id : ScopeId} {l : Location}
    {k : StorageId} (hw : w.Reachable Action.OnePool) (hfaithful : Digest.Faithful δ)
    (hdisjoint : w.Disjoint root) (h₁ : w.OnCourse root v₁) (hunwritten₁ : w.Unwritten v₁)
    (h₂ : w.OnCourse root v₂) (hunwritten₂ : (v₁.save root).2.Unwritten v₂)
    (hok₂ : (v₂.save root).1 = .ok ()) (h : w.OnCourse root v) (hunwritten : w.Unwritten v)
    (hok : (v.save root).1 = .ok ()) (hmaps : w.Maps root id l k)
    (hplain : ∀ content, (w.vault.snapshot k).Describes content →
      (w.rememberedAt root l content (w.vault.snapshot k).document).Plain) :
    (v₂.save root).2.vault.contents l = (v.save root).2.vault.contents l ∧
      ∃ s s', (v₂.save root).2.vault.storage? k = some s ∧
        (v.save root).2.vault.storage? k = some s' ∧ s.unit = s'.unit ∧
        s.snapshot.hash = s'.snapshot.hash ∧
        s.snapshot.document.WrittenAlike s'.snapshot.document := by
  have hunshared := unshared_allStatesAt hw.kept hdisjoint
  obtain ⟨u, hu, _⟩ := Option.map_eq_some_iff.mp (hmaps.location hw.kept)
  obtain ⟨s, hs, _⟩ := Vault.unit?_eq_some hu
  obtain ⟨content, hdescribes⟩ := hw.sourced.vault k s hs
  rw [Vault.snapshot_eq hs] at hplain
  have hsorted : ∀ states ∈ w.allStatesAt root l, Sorted states := fun states hstates =>
    (owned_statesAt hw.kept root l content s.snapshot.document states hstates).1
  -- The first save of either course starts from what is remembered now, the second save
  -- of the one from what the first one has left.
  obtain ⟨s₁, taken₁, hs₁, hunit₁, htaken₁, _⟩ := h₁.exists_taken hfaithful hunshared hmaps
    ((congrFun hunwritten₁.storages k).trans hs) hplain
  obtain ⟨s₂, taken₂, hs₂, hunit₂, htaken₂, hnothing₂⟩ := h₂.exists_taken hfaithful hunshared
    hmaps ((congrFun hunwritten₂.storages k).trans hs₁)
    fun content hcontent => plain_of_taken hfaithful htaken₁ hcontent hplain
  obtain ⟨s', taken, hs', hunit, htaken, hnothing⟩ := h.exists_taken hfaithful hunshared hmaps
    ((congrFun hunwritten.storages k).trans hs) hplain
  rw [hunwritten₁.contents] at htaken₁
  rw [hunwritten₂.contents] at htaken₂
  rw [hunwritten.contents] at htaken
  -- Neither course has left anything to write.
  obtain ⟨hdisk, hhash, halike⟩ := (htaken₁.trans htaken₂).alike hfaithful htaken (hunshared l)
    hsorted hdescribes.sorted
    (fun states hsame => Snapshot.redundant_of_same hdescribes.hash hdescribes.absent hsame)
    (hnothing₂ hok₂) (hnothing hok)
  exact ⟨hdisk, s₂, s', hs₂, hs', (hunit₂.trans hunit₁).trans hunit.symm, hhash, halike⟩

/-- **A failed save can be made good.** All scopes share one pool, whatever has happened
before; in a tree of them every component tells its state, and no two scopes keep a
component of one name in one unit. A save of the tree is refused any writes, or
ended by read-only units. After that the store takes every write.

Then a second save goes well, as does one that nothing was refused before, and
they come to the same: the same bytes are on disk everywhere, and in memory every
storage of the tree has the same digest, and a document that is written alike. All
this for units that were plain as they were remembered. Other units and storages
are left alone either way. -/
theorem failed_save_made_good (hfaithful : Digest.Faithful δ) (hw : w.Reachable Action.OnePool)
    (hroot : root ∈ w.live) (hdisjoint : w.Disjoint root) (hnone : w.NoneFails root)
    (hrefuse : ∀ (b : β) l, LawfulBacking.contents (refuse b) l = LawfulBacking.contents b l)
    (hlift : ∀ (b : β) l, LawfulBacking.contents (lift b) l = LawfulBacking.contents b l)
    (hwilling : ∀ b, Backing.Willing (lift b)) :
    let failed := ((w.act (.disturb refuse)).save root).2
    let again := (failed.act (.disturb lift)).save root
    let single := (w.act (.disturb lift)).save root
    again.1 = .ok () ∧ single.1 = .ok () ∧
      (∀ id l k, w.Maps root id l k →
        (∀ content, (w.vault.snapshot k).Describes content →
          (w.rememberedAt root l content (w.vault.snapshot k).document).Plain) →
        again.2.vault.contents l = single.2.vault.contents l ∧
          ∃ s s', again.2.vault.storage? k = some s ∧ single.2.vault.storage? k = some s' ∧
            s.unit = s'.unit ∧ s.snapshot.hash = s'.snapshot.hash ∧
            s.snapshot.document.WrittenAlike s'.snapshot.document) ∧
      (∀ l, (∀ id k, ¬ w.Maps root id l k) →
        again.2.vault.contents l = single.2.vault.contents l) ∧
      ∀ k, (∀ id l, ¬ w.Maps root id l k) →
        again.2.vault.storage? k = single.2.vault.storage? k := by
  intro failed again single
  -- The same scopes have the same to say before each of the three saves.
  have hcourse := OnCourse.start hw hroot hnone
  have hrefused := hcourse.disturb refuse
  have hlifted := hrefused.save.disturb lift
  have hfresh := hcourse.disturb lift
  have hunwritten₁ := unwritten_disturb w hrefuse
  have hunwritten₂ := unwritten_disturb failed hlift
  have hunwritten := unwritten_disturb w hlift
  have hok₂ := hlifted.tells.save_of_willing (hwilling _)
  have hok := hfresh.tells.save_of_willing (hwilling _)
  refine ⟨hok₂, hok, fun id l k hmaps hplain => ?_, fun l hunmapped => ?_, fun k hunmapped => ?_⟩
  · exact OnCourse.alike_of_ok hw hfaithful hdisjoint hrefused hunwritten₁ hlifted hunwritten₂ hok₂
      hfresh hunwritten hok hmaps hplain
  · calc again.2.vault.contents l
        = (failed.act (.disturb lift)).vault.contents l := hlifted.contents_of_unmapped hunmapped
      _ = failed.vault.contents l := congrFun hunwritten₂.contents l
      _ = (w.act (.disturb refuse)).vault.contents l := hrefused.contents_of_unmapped hunmapped
      _ = w.vault.contents l := congrFun hunwritten₁.contents l
      _ = (w.act (.disturb lift)).vault.contents l := (congrFun hunwritten.contents l).symm
      _ = single.2.vault.contents l := (hfresh.contents_of_unmapped hunmapped).symm
  · -- Refusing and lifting touch no storage.
    calc again.2.vault.storage? k
        = failed.vault.storage? k := hlifted.storage?_of_unmapped hunmapped
      _ = w.vault.storage? k := hrefused.storage?_of_unmapped hunmapped
      _ = single.2.vault.storage? k := (hfresh.storage?_of_unmapped hunmapped).symm

end Courses

/-! ## 6. One unit of two refused -/

/-- A scope and one below it have a component each in one unit, and the scope has a
third one in another unit. All of them get new values. -/
def toBeSavedEvents (a : Json) : List (Action Faulty) :=
  [.addScope "root" none 0, .addScope "m" none 0, .attach 0, .list 0 1,
    .addComponent { name := "a" }, .addComponent { name := "b" }, .addComponent { name := "c" },
    .register 0 0 "a" "/u.json", .register 1 1 "b" "/u.json", .register 0 2 "c" "/v.json",
    .edit 0 fun c => c.set a, .edit 1 fun c => c.set (.integer 1),
    .edit 2 fun c => c.set (.integer 2)]

/-- What they lead to, over some store. -/
def toBeSaved (memory : Memory) (a : Json) : Workspace Faulty Bytes :=
  (start { memory }).run (toBeSavedEvents a)

theorem toBeSaved_reachable {allowed : Action Faulty → Prop} {memory : Memory} {a : Json}
    (hallowed : ∀ act ∈ toBeSavedEvents a, allowed act)
    (h : (start { memory } : Workspace Faulty Bytes).AllPossible (toBeSavedEvents a)) :
    (toBeSaved memory a).Reachable allowed :=
  ⟨{ memory }, steps_run hallowed h⟩

theorem toBeSavedEvents_onePool (a : Json) : ∀ act ∈ toBeSavedEvents a, Action.OnePool act := by
  intro act hact
  simp only [toBeSavedEvents, List.mem_cons, List.not_mem_nil, or_false] at hact
  rcases hact with
    rfl | rfl | rfl | rfl | rfl | rfl | rfl | rfl | rfl | rfl | rfl | rfl | rfl <;> trivial

theorem toBeSavedEvents_alone (a : Json) : ∀ act ∈ toBeSavedEvents a, Action.Alone act := by
  intro act hact
  simp only [toBeSavedEvents, List.mem_cons, List.not_mem_nil, or_false] at hact
  rcases hact with
    rfl | rfl | rfl | rfl | rfl | rfl | rfl | rfl | rfl | rfl | rfl | rfl | rfl <;> trivial

/-- The other unit is refused. -/
def refuseOther (f : Faulty) : Faulty := f.refuseWrites ⟨"/v.json"⟩ true

/-- Nothing is refused any more. -/
def takeAll (f : Faulty) : Faulty :=
  { f with unwritable := [], memory := { f.memory with readOnly := [] } }

/-- The first save writes one unit and is refused the other; the second one makes
that good. -/
theorem failed_save_made_good_one_refused :
    let w := toBeSaved {} (.integer 0)
    let failed := ((w.act (.disturb refuseOther)).save 0).2
    let again := (failed.act (.disturb takeAll)).save 0
    let single := (w.act (.disturb takeAll)).save 0
    ((w.act (.disturb refuseOther)).save 0).1.isOk = false ∧
      failed.vault.contents (Path.location ⟨"/v.json"⟩) = none ∧
      single.2.vault.contents (Path.location ⟨"/v.json"⟩)
        = some (Document.serialize [("c", .integer 2)]) ∧
      again.1 = .ok () ∧ single.1 = .ok () ∧
      ∀ l, again.2.vault.contents l = single.2.vault.contents l := by
  intro w
  have hplain : w.RemembersPlain 0 := remembersPlain_of_absent (by decide +kernel) 0
  have hreachable : w.Reachable Action.OnePool :=
    toBeSaved_reachable (toBeSavedEvents_onePool _) (by decide +kernel)
  have hrefuse : ∀ (f : Faulty) l,
      LawfulBacking.contents (refuseOther f) l = LawfulBacking.contents f l := fun _ _ => rfl
  have hlift : ∀ (f : Faulty) l,
      LawfulBacking.contents (takeAll f) l = LawfulBacking.contents f l := fun _ _ => rfl
  obtain ⟨hagain, hsingle, hmapped, hunmapped, _⟩ := failed_save_made_good Digest.faithful_bytes
    hreachable (by decide +kernel) (disjoint_of_names (by decide +kernel))
    (noneFails_of_components (by decide +kernel) 0) hrefuse hlift
    fun f => Faulty.willing (f := takeAll f) rfl rfl
  refine ⟨by decide +kernel, by decide +kernel, by decide +kernel, hagain, hsingle, fun l => ?_⟩
  -- No unit was there, so all of them are plain.
  by_cases h : ∃ id k, w.Maps 0 id l k
  · obtain ⟨id, k, hmaps⟩ := h
    exact (hmapped id l k hmaps (hplain id l k hmaps)).1
  · exact hunmapped l fun id k hmaps => h ⟨id, k, hmaps⟩

/-- The unit that both scopes have a component in is there at first. -/
def returningUnit : Memory := ({} : Memory).putExternal ⟨"/u.json"⟩ Parties.returning

/-- **A failed save that comes to something else.** The double that the scope above
has is written as the text it was read from, though that was read as another one. So
a first save takes it for written, and what goes to disk with the state of the scope
below is the double that was read. A second save finds another text there and writes
the right one after all; but it is only needed where the first one was refused
something. -/
theorem failed_save_not_made_good :
    let w := toBeSaved returningUnit (.float Parties.written)
    let failed := (w.act (.disturb refuseOther)).save 0
    let again := (failed.2.act (.disturb takeAll)).save 0
    let single := (w.act (.disturb takeAll)).save 0
    w.Reachable Action.OnePool ∧ w.Reachable Action.Alone ∧ 0 ∈ w.live ∧ w.Disjoint 0 ∧
      w.NoneFails 0 ∧ again.1 = .ok () ∧ single.1 = .ok () ∧
      single.2.vault.contents sharedUnit
        = some (Document.serialize [("a", .float Parties.readBack), ("b", .integer 1)]) ∧
      again.2.vault.contents sharedUnit
        = some (Document.serialize [("a", .float Parties.written), ("b", .integer 1)]) ∧
      again.2.vault.contents sharedUnit ≠ single.2.vault.contents sharedUnit :=
  ⟨toBeSaved_reachable (toBeSavedEvents_onePool _) (by decide +kernel),
    toBeSaved_reachable (toBeSavedEvents_alone _) (by decide +kernel), by decide +kernel,
    disjoint_of_names (by decide +kernel), noneFails_of_components (by decide +kernel) 0,
    by decide +kernel, by decide +kernel, by decide +kernel, by decide +kernel, by decide +kernel⟩

end Workspace

end ScopedState
