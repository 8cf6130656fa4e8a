/-
`Proofs/Workspace/Foreign.lean` -- edits that seem to be harmless.

Somebody else edits a unit and only touches entries that no scope of the tree
has a component for. An analysis says that nothing is to be reloaded, and
rightly so: all components have what is on disk. But the storage of the unit
goes on remembering the document from before the edit, and the next write is
merged into that document.

So what becomes of the edit depends on whether anything is written. A scope that
has nothing to write for the unit leaves the edit alone. The first one that has
something to write puts the remembered document in its place, and every write
after that starts from what the one before has left: in the end the entries of
others say what they said before the edit.
-/
import Mathlib.Data.List.Basic
import ScopedState.Backing.Memory
import ScopedState.Proofs.Workspace.Save
import ScopedState.Proofs.Workspace.Touched
set_option autoImplicit false

namespace ScopedState

open Bindings (Sorted get?)

variable {β δ : Type}

/-! ## 1. Writes on top of a document that is out of date -/

section Overwriting

variable [DecidableEq δ] [Digest δ]

/-- A unit that was edited behind the back of its storage: until something has
been written, the edit is there and the storage as it was; after that the unit
is the text of what is remembered. Either way the entries that no writer owns
are remembered as they were. -/
structure Overwrites (o : Origin) (b : Snapshot δ) (started : Bool) (content : Option Bytes)
    (s : Snapshot δ) : Prop where
  sorted : Sorted s.document
  agrees : ∀ n, ¬ o.owned n → get? s.document n = get? b.document n
  fresh : started = false → content = o.content ∧ s = b
  written : started = true → content = some s.document.serialize

/-- A write that was staged before anything was written. -/
structure Draft.On (o : Origin) (b : Snapshot δ) (d : Draft δ) : Prop where
  states : Sorted d.states
  owned : ∀ n, (get? d.states n).isSome = true → o.owned n
  draft : d = b.draft d.states

namespace Overwrites

variable {o : Origin} {b s : Snapshot δ} {started : Bool} {content : Option Bytes} {d d' : Draft δ}

omit [DecidableEq δ] in
/-- **A write on top of what is remembered** is the text of what is remembered
from then on, and leaves the entries of others as they were. -/
theorem of_draft {states : States} (hs : Sorted s.document)
    (hagrees : ∀ n, ¬ o.owned n → get? s.document n = get? b.document n)
    (hstates : Sorted states) (howned : ∀ n, (get? states n).isSome = true → o.owned n) :
    Overwrites o b true (some (s.draft states).bytes) (Snapshot.ofDraft (s.draft states)) := by
  refine ⟨Document.sorted_merge hs states, fun n hn => ?_, Bool.noConfusion, fun _ => rfl⟩
  have hnone : get? states n = none :=
    Option.not_isSome_iff_eq_none.mp fun hsome => hn (howned n hsome)
  have hmerged : get? (s.document.merge states) n = get? s.document n := by
    rw [Document.get?_merge hstates, hnone, Option.getD_none]
  exact hmerged.trans (hagrees n hn)

/-- **One write more.** It goes to disk as it was staged, or its states are staged
again on what is remembered. -/
theorem write (h : Overwrites o b started content s) (hb : Sorted b.document) (hd : d.On o b)
    (hdue : s.rebase d = some d') :
    Overwrites o b true (some d'.bytes) (Snapshot.ofDraft d') := by
  rw [Snapshot.rebase_eq] at hdue
  split at hdue
  · rw [← Option.some.inj hdue, hd.draft]
    exact of_draft hb (fun n _ => rfl) hd.states hd.owned
  · rw [(Snapshot.stage_eq_some hdue).1]
    exact of_draft h.sorted h.agrees hd.states hd.owned

/-- The first write is always due: it was staged on what is remembered. -/
theorem started_of_dropped (h : Overwrites o b started content s) (hd : d.On o b)
    (hdue : s.rebase d = none) : started = true := by
  cases hstarted : started with
  | true => rfl
  | false =>
    obtain ⟨_, rfl⟩ := h.fresh hstarted
    have hbase : s.hash = d.base := by
      rw [hd.draft]
      rfl
    rw [Snapshot.rebase_eq, if_pos hbase] at hdue
    cases hdue

variable [Backing β] [LawfulBacking β]

/-- **Many writes.** Those of the unit were all staged before the first of them,
the others are about other locations, and the store takes all of them. -/
theorem perform {ws : List (String × StagedWrite δ)} {v : Vault β δ} {k : StorageId}
    {st : Storage δ} (hb : Sorted b.document) (hst : v.storage? k = some st)
    (h : Overwrites o b started (v.contents st.unit.location) st.snapshot)
    (hws : ∀ w ∈ ws, (w.2.storage = k → w.2.unit = st.unit ∧ w.2.draft.On o b) ∧
      (w.2.storage ≠ k → w.2.unit.location ≠ st.unit.location))
    (hok : ∀ t ∈ Turn.all ws v, t.answer = .ok ()) :
    ∃ s', Overwrites o b (started || ws.any fun w => w.2.storage = k)
      ((Turn.perform ws v).contents st.unit.location) s' := by
  have hdone : ∀ l : List States, ∀ states, (started || !(l ++ [states]).isEmpty) = true := by
    intro l states
    cases l <;> exact Bool.or_true _
  obtain ⟨s', _, _, hend⟩ := Turn.perform_induction (fun d => d.On o b)
    (fun l content s => Overwrites o b (started || !l.isEmpty) content s)
    (fun l content s d hl hd hnone => by
      -- Nothing is left to write, so something was written before.
      rw [hdone, ← hl.started_of_dropped hd hnone]
      exact hl)
    (fun l content s d d' hl hd hdue => by
      rw [hdone]
      exact hl.write hb hd hdue)
    hst hws hok (l := []) (by rwa [List.isEmpty_nil, Bool.not_true, Bool.or_false])
  have hany : (ws.any fun w => w.2.storage = k) = !(statesFor k ws).isEmpty := by
    rw [statesFor, List.isEmpty_map, Bool.eq_iff_iff, Bool.not_eq_true', List.any_eq_true,
      List.isEmpty_eq_false_iff_exists_mem]
    simp only [List.mem_filter]
  rw [hany]
  exact ⟨s'.snapshot, hend⟩

end Overwrites

end Overwriting

namespace Workspace

open SessionTree (Affected)

/-! ## 2. A store and components that have changed -/

/-- A workspace after its store and the values of its components have changed. -/
def meanwhile (w : Workspace β δ) (backing : β) (components : List Component) : Workspace β δ :=
  { w with vault := { w.vault with backing, components } }

/-- Some scope of a tree has a component of a name at a location. -/
def Has (w : Workspace β δ) (root : ScopeId) (l : Location) (n : String) : Prop :=
  ∃ id ∈ (w.tree root).scopes, ∃ u, w.unitOf? id n = some u ∧ u.location = l

section Meanwhile

variable (w : Workspace β δ) (backing : β) (components : List Component)

/-- Trees are read off the registries. -/
theorem tree_meanwhile (root : ScopeId) :
    (w.meanwhile backing components).tree root = w.tree root := by
  suffices hwithin : ∀ fuel id,
      (w.meanwhile backing components).treeWithin fuel id = w.treeWithin fuel id from
    hwithin w.scopes.length root
  intro fuel
  induction fuel with
  | zero => intro id; rfl
  | succ fuel ih =>
    intro id
    rw [treeWithin, treeWithin, funext ih]
    rfl

variable {w backing components}

theorem kept_meanwhile (h : w.Kept) : (w.meanwhile backing components).Kept :=
  h.withVault (Vault.Keeps.of_eq rfl)

theorem has_meanwhile {root : ScopeId} {l : Location} {n : String} :
    (w.meanwhile backing components).Has root l n ↔ w.Has root l n := by
  unfold Has
  rw [tree_meanwhile]
  rfl

theorem maps_meanwhile {root id : ScopeId} {l : Location} {k : StorageId} :
    (w.meanwhile backing components).Maps root id l k ↔ w.Maps root id l k := by
  unfold Maps
  rw [tree_meanwhile]
  rfl

end Meanwhile

section Edited

variable [Backing β] [LawfulBacking β] [DecidableEq δ] [Digest δ] {w : Workspace β δ}
  {root id : ScopeId} {l : Location} {k : StorageId} {s : Storage δ} {backing : β}
  {components : List Component} {bytes : Bytes}

/-- **An edit of a unit from outside**, the only one there was. -/
structure EditedAt (w : Workspace β δ) (backing : β) (l : Location) (bytes : Bytes) : Prop where
  here : LawfulBacking.contents backing l = some bytes
  elsewhere : ∀ l', l' ≠ l → LawfulBacking.contents backing l' = w.vault.contents l'

/-! ## 3. What an analysis says of it -/

omit [Backing β] [LawfulBacking β] [DecidableEq δ] [Digest δ] in
/-- The components that a session has in a unit are kept there by some scope. -/
theorem has_of_slot (h : w.Kept) (hid : id ∈ (w.tree root).scopes) {slot : Slot}
    (hslot : slot ∈ (w.openScope id).layout) (hs : w.vault.storage? slot.storage = some s)
    {n : String} (hn : n ∈ slot.components.map Prod.fst) : w.Has root s.unit.location n := by
  obtain ⟨t, ht, ⟨l, u, k⟩, hmem, rfl⟩ := mem_layout_iff.mp hslot
  obtain ⟨e, he, rfl⟩ := (mem_slotAt_iff h ht).mp hn
  refine ⟨id, hid, _, unitOf?_slotAt h ht he ((h.scope ht).storages.get?_of_mem hmem), ?_⟩
  have hs' : w.vault.storage? e.storage = some s := hs
  rw [slotAt, hs']
  rfl

omit [Backing β] [LawfulBacking β] [DecidableEq δ] [Digest δ] in
/-- What a tree in use maps is in use. -/
theorem inUse_of_maps (hclosed : w.Closed) (hroot : root ∈ w.live) (hmaps : w.Maps root id l k) :
    w.inUse k = true := by
  obtain ⟨hid, t, u, ht, hk⟩ := hmaps
  exact (inUse_iff w k).mpr
    (Or.inl ⟨id, hclosed.tree hroot id hid, t, ht, l, u, Bindings.mem_of_get? hk⟩)

/-- **A unit whose entries are the remembered ones** for all names that matter
shows no difference. -/
theorem differing_of_same {known : List String} {d e : Document}
    (h : ∀ n ∈ known, Json.sameOption (get? d n) (get? e n) = true) :
    Snapshot.differing known d e = [] := by
  rw [Snapshot.differing, List.filter_eq_nil_iff]
  intro n hn
  rw [h n hn]
  exact Bool.false_ne_true

/-- **A unit shows no difference** after a harmless edit, whether it is the edited
one or another. -/
theorem compared_of_harmless (hw : w.Reachable Action.Alone) (hroot : root ∈ w.live)
    (hmaps : w.Maps root id l k) (hs : w.vault.storage? k = some s)
    (hedit : w.EditedAt backing l bytes) {d : Document}
    (hparse : Document.parse s.unit bytes = .ok d)
    (hharmless : ∀ n, w.Has root l n →
      Json.sameOption (get? s.snapshot.document n) (get? d n) = true)
    {j : ScopeId} (hj : j ∈ (w.tree root).scopes) {slot : Slot}
    (hslot : slot ∈ (w.openScope j).layout)
    (hread : (w.meanwhile backing components).vault.Readable slot.storage) :
    (w.meanwhile backing components).vault.compared slot = .ok [] := by
  obtain ⟨hkept, hclosed, hcoherent⟩ := hw.coherent
  obtain rfl := unit_of_maps hkept hmaps hs
  have hkuse := inUse_of_maps hclosed hroot hmaps
  have hjuse : w.inUse slot.storage = true := inUse_of_openScope (hclosed.tree hroot j hj) hslot
  cases hst' : (w.meanwhile backing components).vault.storage? slot.storage with
  | none => rw [Vault.compared, Vault.changed, hst']
  | some st =>
    have hst : w.vault.storage? slot.storage = some st := hst'
    have hlocation := Vault.location?_of_unit? (Vault.unit?_of_storage? hst)
    rw [Vault.compared, Vault.changed_of_readable hst' hread]
    by_cases hl : st.unit.location = s.unit.location
    · -- The edited unit: the entries that matter are what they were.
      have hsame : slot.storage = k := hcoherent.apart _ _ _ hjuse hkuse (hl ▸ hlocation)
        (hmaps.location hkept)
      rw [hsame, hs] at hst
      obtain rfl := Option.some.inj hst
      have hcontents : (w.meanwhile backing components).vault.contents s.unit.location
          = some bytes := hedit.here
      rw [hcontents, Snapshot.changed]
      split
      · rfl
      · rw [hparse]
        rw [← hsame] at hs
        exact congrArg _ (differing_of_same fun n hn =>
          hharmless n (has_of_slot hkept hj hslot hs hn))
    · -- All others are as they were.
      refine Snapshot.changed_of_hash ?_ _ _
      have hcontents : (w.meanwhile backing components).vault.contents st.unit.location
          = w.vault.contents st.unit.location := hedit.elsewhere _ hl
      rw [hcontents]
      exact (hcoherent.describes _ st hjuse hst).hash

/-- **A harmless edit is not reported**, by any session that is opened on the
tree after it. -/
theorem unreported_of_harmless (hw : w.Reachable Action.Alone) (hroot : root ∈ w.live)
    (hmaps : w.Maps root id l k) (hs : w.vault.storage? k = some s)
    (hedit : w.EditedAt backing l bytes) {d : Document}
    (hparse : Document.parse s.unit bytes = .ok d)
    (hharmless : ∀ n, w.Has root l n →
      Json.sameOption (get? s.snapshot.document n) (get? d n) = true)
    {changes : ChangeSet} :
    let edited := w.meanwhile backing components
    (∀ slot, Affected changes (edited.startSave root).parts slot →
        edited.vault.Readable slot.storage) →
      (edited.startSave root).analyze changes edited.vault = (.reloadable [], edited.vault) := by
  intro edited hreadable
  have hnothing : ∀ slot, Affected changes (edited.startSave root).parts slot →
      edited.vault.compared slot = .ok [] := by
    intro slot haffected
    obtain ⟨j, hj, hslot, _⟩ := affected_startSave_iff.mp haffected
    rw [tree_meanwhile] at hj
    exact compared_of_harmless hw hroot hmaps hs hedit hparse hharmless hj hslot
      (hreadable slot haffected)
  obtain ⟨hworld, hjudges⟩ :=
    SessionTree.analyze_judges changes (edited.startSave root) edited.vault
  rcases hjudges.unchanged fun slot more hslot hmore =>
    (Except.ok.inj ((hnothing slot hslot).symm.trans hmore)).symm with
      ⟨hverdict, _⟩ | ⟨_, slot, e, hslot, he⟩
  · exact Prod.ext hverdict hworld
  · rw [hnothing slot hslot] at he
    cases he

/-! ## 4. What a save makes of it -/

omit [LawfulBacking β] in
/-- The writes of a save for one storage were staged on what is remembered of it,
and are about names that some scope has there. -/
theorem on_of_write (h : w.Stages root) (hmaps : w.Maps root id s.unit.location k)
    (hs : w.vault.storage? k = some s) {content : Option Bytes} {x : String × StagedWrite δ}
    (hx : x ∈ (w.stagedOn root w.vault).writes) :
    (x.2.storage = k → x.2.unit = s.unit ∧ x.2.draft.On
        ⟨content, s.snapshot.document, w.Has root s.unit.location⟩ s.snapshot) ∧
      (x.2.storage ≠ k → x.2.unit.location ≠ s.unit.location) := by
  obtain ⟨hmine, hother⟩ := write_for h hmaps hs hx
  refine ⟨fun hk => ?_, hother⟩
  obtain ⟨j, draft, hmaps', hstage, hx'⟩ := hmine hk
  rw [hx', (Snapshot.stage_eq_some hstage).1]
  refine ⟨rfl, sorted_statesAt h.kept _ j, fun n hn => ?_, rfl⟩
  obtain ⟨state, hstate⟩ := Option.isSome_iff_exists.mp hn
  obtain ⟨u, hu, hul⟩ := unitOf?_of_statesAt h.kept hstate
  exact ⟨j, hmaps'.1, u, hu, hul⟩

omit [LawfulBacking β] in
/-- A storage is written when some scope of the tree has something to write for
it. -/
theorem any_write_iff (h : w.Stages root) (hmaps : w.Maps root id l k)
    (hs : w.vault.storage? k = some s) :
    ((w.stagedOn root w.vault).writes.any fun x => x.2.storage = k) = true ↔
      ∃ j, w.Maps root j l k ∧ s.snapshot.stage (w.statesAt l j) ≠ none := by
  obtain rfl := unit_of_maps h.kept hmaps hs
  simp only [List.any_eq_true, decide_eq_true_eq]
  constructor
  · rintro ⟨x, hx, hk⟩
    obtain ⟨j, draft, hmaps', hstage, _⟩ := (write_for h hmaps hs hx).1 hk
    exact ⟨j, hmaps', Option.ne_none_iff_exists'.mpr ⟨draft, hstage⟩⟩
  · rintro ⟨j, hmaps', hstage⟩
    obtain ⟨draft, hdraft⟩ := Option.ne_none_iff_exists'.mp hstage
    exact ⟨_, write_mem h hmaps' hs hdraft, rfl⟩

/-- **What becomes of an edit that seems to be harmless.** One caller has brought
a workspace about; then somebody else edits a unit that scopes of a tree map,
changing only entries for which no scope of the tree has a component.

An analysis that can read the units it compares reports nothing, whatever
changes it is told of, and leaves everything as it was. Then components get new
values, any at all, and the tree is saved, and that goes well. If no scope of
the tree has anything to write for the unit, the edit is there as it was made.
But if some scope has, the edit is lost: the unit is then the text of a document
in which every entry that no scope has a component for is, literally, the one
that was remembered from before the edit. -/
theorem harmless_edit_after_save (hw : w.Reachable Action.Alone) (hroot : root ∈ w.live)
    (hmaps : w.Maps root id l k) (hs : w.vault.storage? k = some s)
    (hedit : w.EditedAt backing l bytes) {d : Document}
    (hparse : Document.parse s.unit bytes = .ok d)
    (hharmless : ∀ n, w.Has root l n →
      Json.sameOption (get? s.snapshot.document n) (get? d n) = true)
    (components : List Component) :
    let edited := w.meanwhile backing w.vault.components
    let later := w.meanwhile backing components
    let due := ∃ j, later.Maps root j l k ∧ s.snapshot.stage (later.statesAt l j) ≠ none
    (∀ changes, (∀ slot, Affected changes (edited.startSave root).parts slot →
          edited.vault.Readable slot.storage) →
        (edited.startSave root).analyze changes edited.vault = (.reloadable [], edited.vault)) ∧
      ((later.save root).1 = .ok () →
        (¬ due → (later.save root).2.vault.contents l = some bytes) ∧
        (due → ∃ e : Document, Sorted e ∧
          (later.save root).2.vault.contents l = some e.serialize ∧
          ∀ n, ¬ w.Has root l n → get? e n = get? s.snapshot.document n)) := by
  intro edited later due
  obtain ⟨hkept, hclosed, hcoherent⟩ := hw.coherent
  refine ⟨fun changes => unreported_of_harmless hw hroot hmaps hs hedit hparse hharmless,
    fun hok => ?_⟩
  have hkept' : later.Kept := kept_meanwhile hkept
  have hclosed' : later.Closed := ⟨hclosed.bound, hclosed.listed⟩
  have hapart' : later.Apart := hcoherent.apart
  obtain ⟨hstages, hout, hturns⟩ := stages_of_save hkept' hclosed' hapart' hroot hok
  have hmaps' : later.Maps root id l k := maps_meanwhile.mpr hmaps
  have hs' : later.vault.storage? k = some s := hs
  obtain rfl := unit_of_maps hkept hmaps hs
  have hcontents : later.vault.contents s.unit.location = some bytes := hedit.here
  have hkuse := inUse_of_maps hclosed hroot hmaps
  have hsorted := (hcoherent.describes k s hkuse hs).sorted
  -- Nothing has been written yet, and what is remembered is what the writes are based on.
  have hstart : Overwrites
      ⟨some bytes, s.snapshot.document, later.Has root s.unit.location⟩ s.snapshot false
      (later.vault.contents s.unit.location) s.snapshot :=
    ⟨hsorted, fun n _ => rfl, fun _ => ⟨hcontents, rfl⟩, Bool.noConfusion⟩
  obtain ⟨s', hend⟩ := hstart.perform hsorted hs' (fun x hx => on_of_write hstages hmaps' hs' hx)
    hturns
  rw [Bool.false_or] at hend
  rw [hout]
  refine ⟨fun hnot => ?_, fun hdue => ?_⟩
  · have hnone : ((later.stagedOn root later.vault).writes.any fun x => x.2.storage = k)
        = false := by
      rw [Bool.eq_false_iff]
      exact fun hany => hnot ((any_write_iff hstages hmaps' hs').mp hany)
    exact (hend.fresh hnone).1
  · have hany := (any_write_iff hstages hmaps' hs').mpr hdue
    refine ⟨s'.document, hend.sorted, hend.written hany, fun n hn => ?_⟩
    exact hend.agrees n fun hhas => hn (has_meanwhile.mp hhas)

end Edited

/-! ## 5. An entry that is lost -/

/-- An edit of a store in memory. -/
theorem editedAt_putExternal {δ : Type} (w : Workspace Memory δ) (unit : Path) (bytes : Bytes) :
    w.EditedAt (w.vault.backing.putExternal unit bytes) unit.location bytes := by
  have hlookup : ∀ l, LawfulBacking.contents (w.vault.backing.putExternal unit bytes) l
      = if l = unit.location then some bytes else w.vault.contents l :=
    fun l => Bindings.get?_insert _ _ _ l
  refine ⟨?_, fun l hl => ?_⟩
  · rw [hlookup, if_pos rfl]
  · rw [hlookup, if_neg hl]

/-- The document of a unit with a component `a` and an entry of somebody else. -/
def withOther (a x : Int) : Document := [("a", .integer a), ("x", .integer x)]

/-- The unit. -/
def otherUnit : Path := ⟨"/u.json"⟩

/-- A scope that has a component in the unit. -/
def besideOther : Workspace Memory Bytes :=
  (start { files := [(otherUnit.location, Document.serialize (withOther 1 1))] }).run
    [.addScope "root" none 0, .addComponent { name := "a" }, .register 0 0 "a" otherUnit.text]

theorem besideOther_reachable : besideOther.Reachable Action.Alone := by
  refine ⟨_, steps_run (fun a ha => ?_) (by decide +kernel)⟩
  simp only [List.mem_cons, List.not_mem_nil, or_false] at ha
  rcases ha with rfl | rfl | rfl <;> trivial

/-- The store after somebody else has changed the entry that is theirs. -/
def otherEdited : Memory :=
  besideOther.vault.backing.putExternal otherUnit (Document.serialize (withOther 1 2))

/-- The scope after its component has got a new value, too. -/
def bothEdited : Workspace Memory Bytes :=
  besideOther.meanwhile otherEdited [{ name := "a", value := some (.integer 5) }]

/-- **The entry of somebody else is lost.** An analysis says that nothing is to be
reloaded, and the next save, which goes well, brings the old entry back. -/
theorem harmless_edit_lost :
    (((besideOther.meanwhile otherEdited besideOther.vault.components).startSave 0).analyze
        (ChangeSet.ofList [⟨otherUnit, none⟩])
        (besideOther.meanwhile otherEdited besideOther.vault.components).vault).1
      = .reloadable [] ∧
    (bothEdited.save 0).1 = .ok () ∧
    (bothEdited.save 0).2.vault.contents otherUnit.location
      = some (Document.serialize (withOther 5 1)) := by
  decide +kernel

/-- The entry that a save puts in its place is the one that was remembered. -/
theorem remembered_entry_written :
    ∃ e : Document, Sorted e ∧
      (bothEdited.save 0).2.vault.contents otherUnit.location = some e.serialize ∧
      get? e "x" = some (.integer 1) := by
  have hmaps : besideOther.Maps 0 0 otherUnit.location 0 :=
    maps_of_tree (by decide +kernel) (by decide +kernel)
  have hs : besideOther.vault.storage? 0 = some
      ⟨otherUnit, otherUnit.text, withOther 1 1, some (Document.serialize (withOther 1 1))⟩ := by
    rfl
  have hparse : Document.parse otherUnit (Document.serialize (withOther 1 2))
      = .ok (withOther 1 2) := by rfl
  -- The scope has one component, and its entry is what it was.
  have hhas : ∀ n, besideOther.Has 0 otherUnit.location n → n = "a" := by
    rintro n ⟨id, hid, u, hu, _⟩
    obtain ⟨e, hentry, _⟩ := Option.bind_eq_some_iff.mp hu
    obtain ⟨t, ht, he⟩ := Option.bind_eq_some_iff.mp hentry
    have hnames : ∀ id ∈ (besideOther.tree 0).scopes, besideOther.names id = ["a"] := by
      decide +kernel
    have hn : n ∈ besideOther.names id := by
      rw [names, ht]
      exact List.mem_map_of_mem (Bindings.mem_of_get? he)
    rw [hnames id hid] at hn
    exact List.mem_singleton.mp hn
  have hdue : ∃ j, bothEdited.Maps 0 j otherUnit.location 0 ∧
      Snapshot.stage ⟨withOther 1 1, some (Document.serialize (withOther 1 1))⟩
        (bothEdited.statesAt otherUnit.location j) ≠ none :=
    ⟨0, maps_meanwhile.mpr hmaps, Option.isSome_iff_ne_none.mp (by decide +kernel)⟩
  obtain ⟨_, hsaved⟩ := harmless_edit_after_save besideOther_reachable (by decide +kernel) hmaps hs
    (editedAt_putExternal besideOther otherUnit _) hparse (fun n hn => by rw [hhas n hn]; decide)
    [{ name := "a", value := some (.integer 5) }]
  obtain ⟨e, he, hcontents, hothers⟩ := (hsaved (by decide +kernel)).2 hdue
  refine ⟨e, he, hcontents, hothers "x" fun hx => ?_⟩
  exact absurd (hhas "x" hx) (by decide)

end Workspace

end ScopedState
