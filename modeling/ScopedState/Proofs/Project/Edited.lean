/-
`Proofs/Project/Edited.lean` -- saving when one component has been edited.

A project has just been opened, and one of its components gets a value. The save that
follows stages every unit of every scope anew. For the unit of the component these are
the new value and, for its neighbours, what was read of them. For every other unit it is
what was read, respelled; so nothing is staged for it unless it has a text that does not
come back from being expanded and collapsed (`Workspace.Unsettled`).

So the save writes one unit and those that are unsettled (`Staged`). From this
follow what it leaves alone, and that the value is stored, as long as no unsettled unit
is in the way.

None of this asks where the units are. Two scopes may share one, two paths may lead to
one file, and a write may make a directory by which another one is found.
-/
import ScopedState.Proofs.Backing.Several
import ScopedState.Proofs.Project.Followed
import ScopedState.Proofs.Project.Untouched
set_option autoImplicit false

namespace ScopedState

open Bindings (Sorted get?)
open Document (Respelled Stays)

/-! ## 1. The writes of a save -/

namespace ScopeSession

variable {β δ : Type} {macros : Option MacroTable} {v : Vault β δ} {id : ComponentId}
  {f : Component → Component}

/-- What is collected from other components stays when one is changed. -/
theorem collect_modifyComponent {cs : List (String × ComponentId)} (h : ∀ c ∈ cs, c.2 ≠ id) :
    collect macros (v.modifyComponent id f) cs = collect macros v cs := by
  induction cs with
  | nil => rfl
  | cons c rest ih =>
    obtain ⟨hfirst, hrest⟩ := List.forall_mem_cons.mp h
    rw [collect, collect, ih hrest, v.component?_modifyComponent, if_neg hfirst]

/-- So does what is staged. -/
theorem slotWrite_modifyComponent [DecidableEq δ] [Digest δ] {slot : Slot}
    (h : ∀ c ∈ slot.components, c.2 ≠ id) :
    slotWrite macros (v.modifyComponent id f) slot = slotWrite macros v slot := by
  rw [slotWrite, slotWrite, stageSlot, stageSlot, collect_modifyComponent h]
  rfl

end ScopeSession

namespace Workspace

section Saving

variable {β δ : Type} [Backing β] [DecidableEq δ] [Digest δ] {w : Workspace β δ} {root : ScopeId}

/-- **A save that goes well** carries out what every scope of the tree wants to write, and
every component has told its state. -/
theorem save_eq_ok (hok : (w.save root).1 = .ok ()) :
    (w.save root).2 = { w with vault := Turn.perform (w.stagedOn root w.vault).writes w.vault } ∧
      (∀ turn ∈ Turn.all (w.stagedOn root w.vault).writes w.vault, turn.answer = .ok ()) ∧
      (∀ id ∈ (w.tree root).scopes, (w.openScope id).layout.all
        (ScopeSession.tells (w.openScope id).macros w.vault) = true) ∧
      ∀ x, x ∈ (w.stagedOn root w.vault).writes ↔ ∃ id ∈ (w.tree root).scopes,
        x.1 = (w.openScope id).name ∧ x.2 ∈ (w.openScope id).wanted w.vault := by
  rcases w.save_cases root with ⟨hout, houtcome⟩ | ⟨_, hfailed⟩
  swap
  · exact absurd hok hfailed
  obtain ⟨hstaged, hturns⟩ := houtcome hok
  simp only [ScopeTree.mem_postorder] at hstaged
  refine ⟨hout, hturns, fun id hid => ?_, fun x => ?_⟩
  · exact (ScopeSession.save_of_open (w.openScope_isOpen id) w.vault).2.2.1.mp (hstaged id hid).1
  · rw [(w.stagedOn_spec root w.vault).2, List.mem_flatMap]
    refine exists_congr fun id => ?_
    rw [ScopeTree.mem_postorder]
    refine and_congr_right fun hid => ?_
    obtain ⟨houtcome, hreadOnly⟩ := hstaged id hid
    rw [ScopeSession.due_eq_wanted (w.openScope_isOpen id) houtcome hreadOnly, List.mem_map]
    constructor
    · rintro ⟨write, hwrite, rfl⟩
      exact ⟨rfl, hwrite⟩
    · rintro ⟨hname, hwrite⟩
      exact ⟨x.2, hwrite, Prod.ext hname.symm rfl⟩

omit [Backing β] in
/-- **What a scope wants to write**, unit by unit. -/
theorem mem_wanted {id : ScopeId} {v : Vault β δ} {x : StagedWrite δ} :
    x ∈ (w.openScope id).wanted v ↔ ∃ s, w.scope? id = some s ∧ ∃ e ∈ s.storages,
      ScopeSession.slotWrite (s.substitutor.map Substitutor.table) v (w.slotAt s e.2) = some x := by
  unfold ScopeSession.wanted openScope
  cases w.scope? id with
  | none => simp
  | some s =>
    simp only [layout_eq, List.filterMap_map, List.mem_filterMap, Function.comp_apply,
      Option.some.injEq, exists_eq_left']

end Saving

/-! ## 2. Unsettled units -/

variable {δ : Type}

/-- **A unit is unsettled** for a scope if it has a component of the scope with a text that
does not come back from being expanded and collapsed. -/
def Unsettled (w : Workspace LocalFiles δ) (id : ScopeId) (u : Path) : Prop :=
  ∃ table n e x t, w.tableOf? id = some table ∧ w.entryOf? id n = some e ∧
    w.vault.unit? e.storage = some u ∧ get? (w.vault.snapshot e.storage).document n = some x ∧
    t ∈ x.strings ∧ table.respell t ≠ t

/-- No component has two entries. -/
def Distinct (w : Workspace LocalFiles δ) : Prop :=
  ∀ j m e j' m' e', w.entryOf? j m = some e → w.entryOf? j' m' = some e' →
    e.component = e'.component → j = j' ∧ m = m'

variable [DecidableEq δ] [Digest δ] {files : LocalFiles} {w w' : Workspace LocalFiles δ}
  {root id : ScopeId} {s : Scope} {l : Location} {u : Path} {k : StorageId}

/-- **What is written without need** is unsettled. -/
theorem JustRead.unsettled_of_slotWrite (h : w.JustRead files) (hid : id ∈ (w.tree root).scopes)
    (hs : w.scope? id = some s) (hl : get? s.storages l = some (u, k)) {x : StagedWrite δ}
    (hx : ScopeSession.slotWrite (s.substitutor.map Substitutor.table) w.vault
      (w.slotAt s (u, k)) = some x) : w.Unsettled id x.unit := by
  obtain ⟨sub, hsub⟩ := h.macros id s hs
  obtain ⟨st, _, _, states, hst, hread, hrespelled, hnames, hstage⟩ :=
    h.slotWrite_spec hid hs hsub hl
  have hnot : ¬ Stays sub.table.respell st.document states := fun hstays => by
    rw [hstage.mpr (Snapshot.stage_of_stays hread hrespelled hstays)] at hx
    cases hx
  simp only [Stays, not_forall] at hnot
  obtain ⟨n, hn, v, hv, t, ht, hne⟩ := hnot
  obtain ⟨e, he, rfl⟩ := (hnames n).mp hn
  obtain ⟨_, _, hstaged⟩ := ScopeSession.slotWrite_eq_some hx
  refine ⟨sub.table, n, e, v, t, JustRead.tableOf?_eq hs hsub, ?_,
    (Vault.unit?_of_stage hstaged).2, hst ▸ hv, ht, hne⟩
  rw [entryOf?, hs, Option.bind_some, he]

/-- **Registering** gives the new entry a component of its own. -/
theorem Distinct.register (h : w.Distinct) (hread : w.JustRead files) {s : ProjectScope}
    {n template : String} {out : ComponentId × ProjectScope}
    (hok : Project.register w s n template = (.ok out, w')) : w'.Distinct := by
  cases hs : w.scope? s.scope with
  | none =>
    -- There is nothing to register in.
    rw [Sound.register_eq, addComponent_of_absent
      (w := { w with vault := (w.vault.addComponent { name := n }).2 }) hs] at hok
    rw [← (Prod.mk.inj hok).2]
    exact h
  | some t =>
    obtain ⟨sub, hsub⟩ := hread.macros s.scope t hs
    obtain ⟨-, ⟨⟨f, hf⟩, -⟩ | ⟨c, k, hc, -, -, hentry, -⟩⟩ :=
      Project.register_views (JustRead.tableOf?_eq hs hsub) hok
    · cases hf
    have hold : ∀ {j m e}, w.entryOf? j m = some e → e.component ≠ c := by
      intro j m e he
      obtain ⟨x, _, hx, _⟩ := hread.value j m e he
      exact hc ▸ Nat.ne_of_lt (List.getElem?_eq_some_iff.mp hx).1
    intro j m e j' m' e' he he' hsame
    rw [hentry] at he he'
    split at he
    · rename_i hat
      split at he'
      · rename_i hat'
        exact ⟨hat.1.trans hat'.1.symm, hat.2.trans hat'.2.symm⟩
      · rw [← Option.some.inj he] at hsame
        exact absurd hsame.symm (hold he')
    · split at he'
      · rw [← Option.some.inj he'] at hsame
        exact absurd hsame (hold he)
      · exact h j m e j' m' e' he he' hsame

/-- **Opening a project** keeps entries distinct. -/
theorem Distinct.keptByOpening (files : LocalFiles) :
    KeptByOpening fun w : Workspace LocalFiles δ => w.JustRead files ∧ w.Distinct where
  scope w name table h := by
    obtain ⟨hentry, _⟩ := w.views_addScope (s :=
      { name, pool := 0, substitutor := some { table } }) rfl rfl
    refine ⟨h.1.addScope name table, ?_⟩
    rw [Distinct, hentry]
    exact h.2
  register w s n template out w' h hok := ⟨h.1.register hok, h.2.register h.1 hok⟩
  attach w id h := by
    refine ⟨h.1.attach id, ?_⟩
    rw [Distinct, (w.views_attach id).1]
    exact h.2
  list w r id h := ⟨h.1.list r id, h.2⟩

/-! ## 3. What is staged -/

/-- A workspace in which a component has got a value. -/
def edited (w : Workspace LocalFiles δ) (c : ComponentId) (value : Json) : Workspace LocalFiles δ :=
  { w with vault := w.vault.modifyComponent c fun x => x.set value }

omit [DecidableEq δ] [Digest δ] in
theorem tree_edited (w : Workspace LocalFiles δ) (c : ComponentId) (value : Json)
    (root : ScopeId) : (w.edited c value).tree root = w.tree root := by
  have houtline : (w.edited c value).outline = w.outline := rfl
  exact tree_of_outline houtline root

/-- **What is staged when a component has been edited**: for its unit, states that have the
value; and besides, what is unsettled. -/
structure Staged (w : Workspace LocalFiles δ) (id : ScopeId) (n : String) (k : StorageId)
    (stored : Json) (st : Storage δ) (states : States) (ws : List (String × StagedWrite δ)) :
    Prop where
  storage : w.vault.storage? k = some st
  sorted : Sorted states
  value : get? states n = some (some stored)
  own : ∀ draft, st.snapshot.stage states = some draft → ∃ x ∈ ws, x.2 = ⟨k, st.unit, draft⟩
  written : ∀ x ∈ ws,
    (∃ draft, st.snapshot.stage states = some draft ∧ x.2 = ⟨k, st.unit, draft⟩) ∨
      ∃ j, w.Unsettled j x.2.unit ∧ ¬ (j = id ∧ x.2.unit = st.unit) ∧
        w.vault.unit? x.2.storage = some x.2.unit

namespace JustRead

variable {n : String} {e : Entry} {value : Json}

/-- Nothing else is staged for a unit where the component is not. -/
theorem slotWrite_edited (h : w.JustRead files) (hdistinct : w.Distinct)
    (he : w.entryOf? id n = some e) {j : ScopeId} (hs : w.scope? j = some s)
    (hother : ¬ (j = id ∧ k = e.storage)) (macros : Option MacroTable) :
    ScopeSession.slotWrite macros (w.edited e.component value).vault (w.slotAt s (u, k))
      = ScopeSession.slotWrite macros w.vault (w.slotAt s (u, k)) := by
  refine ScopeSession.slotWrite_modifyComponent fun c hc hsame => hother ?_
  obtain ⟨⟨m, e'⟩, hfound, rfl⟩ := List.mem_map.mp hc
  obtain ⟨hfound, hk⟩ := List.mem_filter.mp hfound
  have he' : w.entryOf? j m = some e' := by
    rw [entryOf?, hs]
    exact (h.kept.scope hs).components.get?_of_mem hfound
  -- The component has one entry.
  obtain ⟨rfl, rfl⟩ := hdistinct j m e' id n e he' he hsame
  obtain rfl := Option.some.inj (he'.symm.trans he)
  exact ⟨rfl, (of_decide_eq_true hk).symm⟩

/-- **What is staged for the unit of the component** has the value, with references put
in. -/
theorem stage_edited (h : w.JustRead files) (he : w.entryOf? id n = some e)
    (hs : w.scope? id = some s) {sub : Substitutor} (hsub : s.substitutor = some sub)
    (hl : get? s.storages l = some (u, e.storage))
    (htells : ((w.edited e.component value).openScope id).layout.all
      (ScopeSession.tells ((w.edited e.component value).openScope id).macros
        (w.edited e.component value).vault) = true) :
    ∃ states, Sorted states ∧ get? states n = some (some (sub.table.collapseValue value)) ∧
      ScopeSession.slotWrite (s.substitutor.map Substitutor.table)
          (w.edited e.component value).vault (w.slotAt s (u, e.storage))
        = w.vault.stage e.storage states := by
  have hs' : (w.edited e.component value).scope? id = some s := hs
  have htold : (ScopeSession.collect (s.substitutor.map Substitutor.table)
      (w.edited e.component value).vault (w.slotAt s (u, e.storage)).components).isOk = true := by
    simp only [openScope, hs', layout_eq, List.all_map, List.all_eq_true] at htells
    exact htells _ (Bindings.mem_of_get? hl)
  cases hcollect : ScopeSession.collect (s.substitutor.map Substitutor.table)
      (w.edited e.component value).vault (w.slotAt s (u, e.storage)).components with
  | error f =>
    rw [hcollect] at htold
    cases htold
  | ok states =>
    refine ⟨states, ScopeSession.sorted_collect hcollect, ?_, ?_⟩
    · obtain ⟨c, _, hc, _⟩ := h.value id n e he
      have hentry : get? s.components n = some e := by
        rw [entryOf?, hs] at he
        exact he
      have hset : (w.edited e.component value).vault.component? e.component
          = some (c.set value) := by
        rw [edited, Vault.component?_modifyComponent, if_pos rfl, hc, Option.map_some]
      have hkept : Option.filter (fun x : Entry => decide (x.storage = e.storage)) (some e)
          = some e := Option.filter_eq_some_iff.mpr ⟨rfl, decide_eq_true rfl⟩
      rw [get?_collect_slotAt (h.kept.scope hs).components _ hcollect n, hentry, hkept,
        Option.map_some, hset, hsub]
      rfl
    · rw [ScopeSession.slotWrite, ScopeSession.stageSlot, hcollect]
      rfl

/-- What is staged for another unit is unsettled. -/
theorem unsettled_of_edited (h : w.JustRead files) (hdistinct : w.Distinct)
    (he : w.entryOf? id n = some e) {j : ScopeId} (hj : j ∈ (w.tree root).scopes)
    (hs : w.scope? j = some s) (hl : get? s.storages l = some (u, k))
    (hother : ¬ (j = id ∧ k = e.storage)) {x : StagedWrite δ}
    (hx : ScopeSession.slotWrite (s.substitutor.map Substitutor.table)
      (w.edited e.component value).vault (w.slotAt s (u, k)) = some x) :
    w.Unsettled j x.unit ∧ w.vault.unit? x.storage = some x.unit ∧ x.unit.location = l := by
  rw [h.slotWrite_edited hdistinct he hs hother] at hx
  obtain ⟨_, _, hstaged⟩ := ScopeSession.slotWrite_eq_some hx
  obtain ⟨hstorage, hunit⟩ := Vault.unit?_of_stage hstaged
  have hstorage : x.storage = k := hstorage
  have hlocation := (h.kept.scope hs).located l u k hl
  rw [← hstorage] at hlocation hunit
  exact ⟨h.unsettled_of_slotWrite hj hs hl hx, hunit, Option.some.inj
    ((Vault.location?_of_unit? hunit).symm.trans hlocation)⟩

/-- **The writes of the save.** -/
theorem exists_staged (h : w.JustRead files) (hdistinct : w.Distinct)
    (he : w.entryOf? id n = some e) (hid : id ∈ (w.tree root).scopes) {table : MacroTable}
    (htable : w.tableOf? id = some table)
    (hok : ((w.edited e.component value).save root).1 = .ok ()) :
    ∃ st states ws, Staged w id n e.storage (table.collapseValue value) st states ws ∧
      ((w.edited e.component value).save root).2.vault
        = Turn.perform ws (w.edited e.component value).vault ∧
      ∀ turn ∈ Turn.all ws (w.edited e.component value).vault, turn.answer = .ok () := by
  obtain ⟨hout, hturns, htells, hwrites⟩ := save_eq_ok hok
  rw [tree_edited] at htells hwrites
  obtain ⟨s, hs, hentry⟩ := Option.bind_eq_some_iff.mp he
  have hscope := h.kept.scope hs
  obtain ⟨sub, hsub⟩ := h.macros id s hs
  obtain rfl := Option.some.inj ((tableOf?_eq hs hsub).symm.trans htable)
  obtain ⟨l, u, hl⟩ := hscope.mapped n e hentry
  obtain ⟨st, hst, hstl⟩ := hscope.exists_storage hl
  obtain ⟨states, hstates, hvalue, hslot⟩ := h.stage_edited he hs hsub hl (htells id hid)
  have hstage : w.vault.stage e.storage states
      = (st.snapshot.stage states).map fun draft => ⟨e.storage, st.unit, draft⟩ := by
    rw [Vault.stage, hst]
  rw [hstage] at hslot
  refine ⟨st, states, _, ⟨hst, hstates, hvalue, fun draft hdraft => ?_, fun x hx => ?_⟩,
    by rw [hout], hturns⟩
  · refine ⟨(_, ⟨e.storage, st.unit, draft⟩), (hwrites _).mpr ⟨id, hid, rfl, ?_⟩, rfl⟩
    refine mem_wanted.mpr ⟨s, hs, _, Bindings.mem_of_get? hl, hslot.trans ?_⟩
    rw [hdraft, Option.map_some]
  · obtain ⟨j, hj, -, hwanted⟩ := (hwrites x).mp hx
    obtain ⟨t, ht, ⟨l', u', k⟩, hmem, hslot'⟩ := mem_wanted.mp hwanted
    have ht : w.scope? j = some t := ht
    have hl' := (h.kept.scope ht).storages.get?_of_mem hmem
    by_cases hown : j = id ∧ k = e.storage
    · -- This is the unit of the component, which the scope has once.
      obtain ⟨rfl, rfl⟩ := hown
      obtain rfl := Option.some.inj (hs.symm.trans ht)
      obtain rfl : l' = l := Option.some.inj
        (((h.kept.scope hs).located l' u' _ hl').symm.trans (hscope.located l u _ hl))
      obtain ⟨rfl, -⟩ := Prod.mk.inj (Option.some.inj (hl.symm.trans hl'))
      obtain ⟨draft, hdraft, hx⟩ := Option.map_eq_some_iff.mp (hslot.symm.trans hslot')
      exact Or.inl ⟨draft, hdraft, hx.symm⟩
    · obtain ⟨hunsettled, hunit, hlocation⟩ :=
        h.unsettled_of_edited hdistinct he hj ht hl' hown hslot'
      refine Or.inr ⟨j, hunsettled, fun hat => hown ⟨hat.1, ?_⟩, hunit⟩
      -- One scope has one storage for the location.
      obtain ⟨rfl, hat⟩ := hat
      obtain rfl := Option.some.inj (hs.symm.trans ht)
      obtain rfl : l' = l := by rw [← hlocation, hat, hstl]
      exact (Prod.mk.inj (Option.some.inj (hl'.symm.trans hl))).2

end JustRead

/-! ## 4. What is left on the disk -/

/-- **A text holds a value** under a name: it is that of a document with the value, or is
read as such a document. -/
def Holds (unit : Path) (bytes : Bytes) (n : String) (value : Json) : Prop :=
  ∃ doc : Document, Sorted doc ∧
    (bytes = doc.serialize ∨ Document.parse unit bytes = .ok doc) ∧
    Json.sameOption (some value) (get? doc n) = true

/-- **What need not be staged is there**: the text that was read holds the value. -/
theorem holds_of_stage (hfaithful : Digest.Faithful δ) {snapshot : Snapshot δ} {unit : Path}
    {content : Option Bytes} (hread : Snapshot.ofContent unit content = .ok snapshot)
    {states : States} (hstates : Sorted states) {n : String} {value : Json}
    (hvalue : get? states n = some (some value)) (hnone : snapshot.stage states = none) :
    ∃ bytes, content = some bytes ∧ Holds unit bytes n value := by
  have hdescribes := Snapshot.describes_ofContent hread
  have hmerged : get? (snapshot.document.merge states) n = some value := by
    rw [Document.get?_merge hstates, hvalue, Option.getD_some]
  rcases Snapshot.stage_eq_none_iff.mp hnone with ⟨hsame, _⟩ | hwritten
  · -- The document has an equal value already.
    have hentry := (Document.same_merge_iff hdescribes.sorted hstates).mp hsame n _ hvalue
    cases content with
    | none =>
      rw [hdescribes.absent rfl] at hentry
      cases hentry
    | some bytes =>
      refine ⟨bytes, rfl, snapshot.document, hdescribes.sorted, Or.inr ?_, hentry⟩
      rw [Snapshot.ofContent] at hread
      split at hread
      · rename_i doc hparse
        rw [hparse, ← Except.ok.inj hread]
      · cases hread
  · -- The text comes out as the one that was read.
    refine ⟨_, ?_, _, Document.sorted_merge hdescribes.sorted states, Or.inl rfl, ?_⟩
    · refine content_eq_of_hash_eq (δ := δ) hfaithful ?_
      rw [← hdescribes.hash]
      exact hwritten
    · rw [hmerged]
      exact Json.sameOption_refl _

namespace Staged

variable {n : String} {stored : Json} {st : Storage δ} {states : States}
  {ws : List (String × StagedWrite δ)} {v : Vault LocalFiles δ}

/-- **A file reads as before** unless the unit of the component touches it, or an unsettled
one does. -/
theorem read (h : Staged w id n k stored st states ws) (hd : v.backing.disk.Tree)
    (hturns : ∀ turn ∈ Turn.all ws v, turn.answer = .ok ()) {q : Path} {bytes : Bytes}
    (hread : v.backing.disk.read q = .ok bytes) :
    let after := (Turn.perform ws v).backing.disk
    after.read q = .ok bytes ∨ after.Touches st.unit q ∨
      ∃ j x, w.Unsettled j x ∧ after.Touches x q := by
  have hunits : ∀ x ∈ ws, x.2.unit = st.unit ∨ ∃ j, w.Unsettled j x.2.unit := by
    intro x hx
    rcases h.written x hx with ⟨draft, _, heq⟩ | ⟨j, hj, _⟩
    · exact Or.inl (congrArg StagedWrite.unit heq)
    · exact Or.inr ⟨j, hj⟩
  have hspared := Turn.spared_perform hd hturns
    (P := fun x => x = st.unit ∨ ∃ j, w.Unsettled j x) hunits
  refine (hspared.read hd hread).imp_right ?_
  rintro ⟨x, rfl | ⟨j, hj⟩, htouches⟩
  · exact Or.inl htouches
  · exact Or.inr ⟨j, x, hj, htouches⟩

/-- **The value is stored** if no other unit is in the way. -/
theorem holds (hfaithful : Digest.Faithful δ) (h : Staged w id n k stored st states ws)
    (hd : v.backing.disk.Tree) (hturns : ∀ turn ∈ Turn.all ws v, turn.answer = .ok ())
    (hstorage : v.storage? k = some st) {content : Option Bytes}
    (hread : Backing.read v.backing st.unit = .ok content)
    (hcontent : Snapshot.ofContent st.unit content = .ok st.snapshot)
    (hclear : ∀ j x, w.Unsettled j x →
      j = id ∧ x = st.unit ∨ ¬ (Turn.perform ws v).backing.disk.Touches x st.unit) :
    ∃ bytes, (Turn.perform ws v).backing.disk.read st.unit = .ok bytes ∧
      Holds st.unit bytes n stored := by
  -- No write but that of the component is in the way.
  have hothers : ∀ x ∈ ws,
      (∃ draft, st.snapshot.stage states = some draft ∧ x.2 = ⟨k, st.unit, draft⟩) ∨
        x.2.storage ≠ k ∧ ¬ (Turn.perform ws v).backing.disk.Touches x.2.unit st.unit := by
    intro x hx
    refine (h.written x hx).imp_right fun ⟨j, hj, hother, hxunit⟩ => ?_
    have hapart := (hclear j x.2.unit hj).resolve_left hother
    refine ⟨fun hk => hapart (Or.inl ?_), hapart⟩
    rw [hk, Vault.unit?_of_storage? h.storage] at hxunit
    exact (Option.some.inj hxunit).symm
  cases hdue : st.snapshot.stage states with
  | none =>
    -- Nothing is written for the component, because what was read has the value already.
    obtain ⟨bytes, rfl, hholds⟩ := holds_of_stage hfaithful hcontent h.sorted h.value hdue
    refine ⟨bytes, ?_, hholds⟩
    have hapart : ∀ x ∈ ws, ¬ (Turn.perform ws v).backing.disk.Touches x.2.unit st.unit := by
      intro x hx
      rcases hothers x hx with ⟨draft, hdraft, _⟩ | ⟨_, hapart⟩
      · rw [hdue] at hdraft
        cases hdraft
      · exact hapart
    have hspared := Turn.spared_perform hd hturns (P := fun p => ∃ x ∈ ws, x.2.unit = p)
      fun x hx => ⟨x, hx, rfl⟩
    refine (hspared.read hd (LocalFiles.read_eq_some_iff.mp hread)).resolve_right ?_
    rintro ⟨_, ⟨x, hx, rfl⟩, htouches⟩
    exact hapart x hx htouches
  | some draft =>
    obtain rfl := (Snapshot.stage_eq_some hdue).1
    have hsorted := (Snapshot.describes_ofContent hcontent).sorted
    obtain ⟨doc, hdoc⟩ := Turn.stored_perform hd hsorted h.sorted h.value hturns
      (Or.inr ⟨hstorage, h.own _ hdue⟩) fun x hx =>
        (hothers x hx).imp_left fun ⟨draft, hdraft, heq⟩ => by
          rw [heq, (Snapshot.stage_eq_some hdraft).1]
    exact ⟨_, hdoc.text, doc, hdoc.sorted, Or.inl rfl, by
      rw [hdoc.entry]
      exact Json.sameOption_refl _⟩

end Staged

/-- **What the save leaves.** Every file reads as before, unless the unit of the component
touches it or an unsettled one does. And the unit of the component holds the value, unless
an unsettled one touches it, which is another unit or one of another scope. -/
theorem JustRead.save_edited (hfaithful : Digest.Faithful δ) (h : w.JustRead files)
    (hdistinct : w.Distinct) (hd : files.disk.Tree) {n : String} {e : Entry}
    (he : w.entryOf? id n = some e) (hid : id ∈ (w.tree root).scopes) {table : MacroTable}
    (htable : w.tableOf? id = some table) (hunit : w.vault.unit? e.storage = some u) {value : Json}
    (hok : ((w.edited e.component value).save root).1 = .ok ()) :
    let after := ((w.edited e.component value).save root).2.vault.backing.disk
    (∀ q bytes, files.disk.read q = .ok bytes → after.read q = .ok bytes ∨ after.Touches u q ∨
        ∃ j x, w.Unsettled j x ∧ after.Touches x q) ∧
      ((∀ j x, w.Unsettled j x → j = id ∧ x = u ∨ ¬ after.Touches x u) →
        ∃ bytes, after.read u = .ok bytes ∧ Holds u bytes n (table.collapseValue value)) := by
  obtain ⟨st, states, ws, hstaged, hvault, hturns⟩ := h.exists_staged hdistinct he hid htable hok
  obtain rfl : st.unit = u := Option.some.inj
    ((Vault.unit?_of_storage? hstaged.storage).symm.trans hunit)
  -- The component has been edited in memory only, so the disk is still the one that was read.
  have hbacking : (w.edited e.component value).vault.backing = files := h.backing
  have htree : (w.edited e.component value).vault.backing.disk.Tree := hbacking ▸ hd
  obtain ⟨content, hread, hcontent⟩ := h.exists_content hstaged.storage
  rw [hvault]
  refine ⟨fun q bytes hq => hstaged.read htree hturns ?_, fun hclear =>
    hstaged.holds hfaithful htree hturns hstaged.storage ?_ hcontent hclear⟩
  · rw [hbacking]
    exact hq
  · rw [hbacking]
    exact hread

end Workspace

end ScopedState
