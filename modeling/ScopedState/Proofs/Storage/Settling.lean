/-
`Proofs/Storage/Settling.lean` -- when nothing is left to write.

Nothing has to be written for some states when each of them is equal to the
entry in memory, or when each has the text of that entry and the unit has the
text of the document. Either way the states rest, and somebody else's write does
not rouse them, as long as two states for one name are the same: the write
leaves the entry of a name alone or sets it to the very state.

Several writers may have staged their states for a unit on one snapshot, and
carry their writes out one after the other. The states of a writer with nothing
to write rest from the start, and those of any other one rest after its turn,
whether its write was dropped or carried out. There is one thing to see to. A
write goes to disk as it was staged when the digest in memory is the one it was
based on, and if the initial bytes came back in between, that would undo the
writes before it. They do not come back (`Settles.away`): bytes that are
the text of what was read at first already say what has just been written, and
then there was no reason to write it.
-/
import ScopedState.Proofs.Storage.Merging
set_option autoImplicit false

namespace ScopedState

open Bindings (Sorted get?)

/-! ## 1. States that are there -/

namespace Document

variable {R : Option Json → Option Json → Prop} {d : Document} {states more : States}

/-- Every state is in some relation to the entry of its name. -/
def Meets (R : Option Json → Option Json → Prop) (d : Document) (states : States) : Prop :=
  ∀ n x, get? states n = some x → R x (get? d n)

/-- States that are merged in are met. -/
theorem meets_merge (hR : ∀ x, R x x) (hstates : Sorted states) (d : Document) :
    (d.merge states).Meets R states := by
  intro n x hx
  rw [get?_merge hstates, hx, Option.getD_some]
  exact hR x

/-- **States that are met stay so** when states are merged in that say the same
of the names of both. -/
theorem Meets.merge (h : d.Meets R states) (hR : ∀ x, R x x) (hmore : Sorted more)
    (hsame : ∀ n x y, get? states n = some x → get? more n = some y → x = y) :
    (d.merge more).Meets R states := by
  intro n x hx
  rw [get?_merge hmore]
  cases hy : get? more n with
  | none =>
    rw [Option.getD_none]
    exact h n x hx
  | some y =>
    rw [Option.getD_some, hsame n x y hx hy]
    exact hR y

/-- A merge leaves the text of a document as it is when the states have the
texts of the entries there. -/
theorem serialize_merge_iff (hd : Sorted d) (hstates : Sorted states) :
    (d.merge states).serialize = d.serialize ↔
      d.Meets (fun x y => entryText x = entryText y) states := by
  rw [serialize_eq_iff (sorted_merge hd states) hd]
  constructor
  · intro h n x hx
    have halike := h n
    rwa [get?_merge hstates, hx, Option.getD_some] at halike
  · intro h n
    rw [get?_merge hstates]
    cases hx : get? states n with
    | none => rfl
    | some x =>
      rw [Option.getD_some]
      exact h n x hx

/-- What has the text of a document after a merge has the text of what was merged
into, at the names that are not merged. -/
theorem WrittenAlike.merge_of_merge {e : Document} (hstates : Sorted states)
    (h : (e.merge states).WrittenAlike d) : (d.merge states).WrittenAlike (e.merge states) := by
  intro n
  have halike := h n
  rw [get?_merge hstates] at halike ⊢
  rw [get?_merge hstates]
  cases hx : get? states n with
  | none =>
    rw [hx, Option.getD_none] at halike
    exact halike.symm
  | some x => rfl

end Document

section Resting

variable {δ : Type} [DecidableEq δ] [Digest δ] {o : Origin} {started : Bool}
  {content : Option Bytes} {s : Snapshot δ} {states more : States}

/-- **Some states rest**: they are equal to the entries in memory, or have their
texts while the unit has the text of the document. -/
def Snapshot.Rests (s : Snapshot δ) (content : Option Bytes) (states : States) : Prop :=
  s.document.Meets (fun x y => Json.sameOption x y = true) states ∨
    (content = some s.document.serialize ∧
      s.document.Meets (fun x y => Document.entryText x = Document.entryText y) states)

/-- **States that rest need no write.** -/
theorem Snapshot.Rests.stage (h : s.Rests content states) (himages : Images o started content s)
    (habsent : o.content = none → o.document = []) (hstates : Sorted states) :
    s.stage states = none := by
  rw [stage_eq_none_iff]
  rcases h with hsame | ⟨hcontent, htext⟩
  · refine Or.inl (redundant_of_same himages.hash (himages.absent habsent) ?_)
    exact (Document.same_merge_iff himages.sorted hstates).mpr hsame
  · refine Or.inr ?_
    rw [Written, (Document.serialize_merge_iff himages.sorted hstates).mpr htext, himages.hash,
      hcontent]
    rfl

/-- **States that need no write rest**, unless the unit has the text that they
would give and the document has another one. -/
theorem Snapshot.rests_of_stage (hfaithful : Digest.Faithful δ)
    (himages : Images o started content s) (hstates : Sorted states)
    (htext : content = some (s.document.merge states).serialize →
      (s.document.merge states).serialize = s.document.serialize)
    (hnone : s.stage states = none) : s.Rests content states := by
  rcases stage_eq_none_iff.mp hnone with ⟨hsame, _⟩ | hwritten
  · exact Or.inl ((Document.same_merge_iff himages.sorted hstates).mp hsame)
  · have hcontent : content = some (s.document.merge states).serialize := by
      refine content_eq_of_hash_eq (δ := δ) hfaithful ?_
      rw [← himages.hash]
      exact hwritten
    have hsame := htext hcontent
    refine Or.inr ⟨?_, (Document.serialize_merge_iff himages.sorted hstates).mp hsame⟩
    rw [hcontent, hsame]

omit [DecidableEq δ] in
/-- **States that rest are not roused** by a write of states that say the same. -/
theorem Snapshot.Rests.write (h : s.Rests content states) (hmore : Sorted more)
    (hsame : ∀ n x y, get? states n = some x → get? more n = some y → x = y) :
    (Snapshot.ofDraft (s.draft more)).Rests (some (s.draft more).bytes) states := by
  rcases h with hequal | ⟨_, htext⟩
  · exact Or.inl (hequal.merge Json.sameOption_refl hmore hsame)
  · exact Or.inr ⟨rfl, htext.merge (fun _ => rfl) hmore hsame⟩

omit [DecidableEq δ] in
/-- States that have just been written rest. -/
theorem Snapshot.rests_of_write (content : Option Bytes) (hstates : Sorted states) :
    (Snapshot.ofDraft (s.draft states)).Rests content states :=
  Or.inl (Document.meets_merge Json.sameOption_refl hstates s.document)

end Resting

/-! ## 2. One turn after the other -/

section Settling

variable {δ : Type} [DecidableEq δ] [Digest δ] {o : Origin} {all done : List States}
  {started : Bool} {content : Option Bytes} {s : Snapshot δ} {d d' : Draft δ}

/-- A write that was staged in the beginning, and had to be. -/
structure Draft.Initial (o : Origin) (all : List States) (d : Draft δ) : Prop where
  staged : d.From o false
  mem : d.states ∈ all
  due : o.content ≠ some (o.document.merge d.states).serialize

/-- **In the course of the turns**: the unit and the snapshot of it, where the
states of those who are done rest. Once something has been written, the initial
content does not come back. -/
structure Settles (o : Origin) (all : List States) (started : Bool) (done : List States)
    (content : Option Bytes) (s : Snapshot δ) : Prop where
  images : Images o started content s
  away : started = true → content ≠ o.content
  mem : ∀ states ∈ done, states ∈ all
  rests : ∀ states ∈ done, s.Rests content states

omit [DecidableEq δ] in
/-- A write that was staged in the beginning was staged at some time, also later
on. -/
theorem Draft.From.later (h : d.From o false) (started : Bool) : d.From o started := by
  cases started with
  | false => exact h
  | true => exact h.mono

omit [DecidableEq δ] in
/-- One more is done, and nothing is written for it. -/
theorem Settles.add {states : States} (h : Settles o all started done content s)
    (hmem : states ∈ all) (hrests : s.Rests content states) :
    Settles o all started (done ++ [states]) content s := by
  refine ⟨h.images, h.away, fun x hx => ?_, fun x hx => ?_⟩
  · rcases List.mem_append.mp hx with hx | hx
    · exact h.mem x hx
    · rw [List.mem_singleton.mp hx]
      exact hmem
  · rcases List.mem_append.mp hx with hx | hx
    · exact h.rests x hx
    · rw [List.mem_singleton.mp hx]
      exact hrests

/-- **A write that is dropped** leaves its states at rest. -/
theorem Settles.drop (hfaithful : Digest.Faithful δ) (h : Settles o all started done content s)
    (hd : d.Initial o all) (hdue : s.rebase d = none) :
    Settles o all started (done ++ [d.states]) content s := by
  have hwritten := h.images.written
    (started_of_dropped h.images (hd.staged.later started) hdue)
  rw [Snapshot.rebase_eq] at hdue
  split at hdue
  · cases hdue
  · refine h.add hd.mem (Snapshot.rests_of_stage hfaithful h.images hd.staged.states ?_ hdue)
    intro hcontent
    exact Option.some.inj (hcontent.symm.trans hwritten)

/-- **A write that is due** is the write of its states on what is in memory: if it
goes to disk as it was staged, nothing has been written before. -/
theorem Settles.rebase (hfaithful : Digest.Faithful δ) (h : Settles o all started done content s)
    (hd : d.Initial o all) (hdue : s.rebase d = some d') : d' = s.draft d.states := by
  rw [Snapshot.rebase_eq] at hdue
  split at hdue
  · rename_i hbase
    obtain ⟨earlier, contentB, b, hearlier, hb, hdraft⟩ := hd.staged.base
    have hfresh : earlier = false := by
      cases earlier with
      | false => rfl
      | true => exact (hearlier rfl).symm
    obtain ⟨hbcontent, hbdocument⟩ := hb.fresh hfresh
    have hhash : s.hash = b.hash := by
      rw [hbase, hdraft]
      rfl
    cases hstarted : started with
    | false =>
      have hdocument : s.document = b.document :=
        (h.images.fresh hstarted).2.trans hbdocument.symm
      rw [← Option.some.inj hdue, hdraft, Snapshot.draft, Snapshot.draft, hdocument, hhash]
    | true =>
      -- The digest would be the initial one again.
      have hcontent : content = contentB := by
        refine content_eq_of_hash_eq (δ := δ) hfaithful ?_
        rw [← h.images.hash, ← hb.hash, hhash]
      exact absurd (hcontent.trans hbcontent) (h.away hstarted)
  · exact (Snapshot.stage_eq_some hdue).1

/-- **A write that is carried out** leaves its states at rest, and those of the
ones before. -/
theorem Settles.write (hfaithful : Digest.Faithful δ) (hplain : o.Plain)
    (hdocument : Sorted o.document) (hconsistent : Consistent all)
    (h : Settles o all started done content s) (hd : d.Initial o all)
    (hdue : s.rebase d = some d') :
    Settles o all true (done ++ [d.states]) (some d'.bytes) (Snapshot.ofDraft d') := by
  rw [h.rebase hfaithful hd hdue]
  have hstates := hd.staged.states
  have hsorted : Sorted (s.document.merge d.states) :=
    Document.sorted_merge h.images.sorted d.states
  have hagrees := h.images.agrees.merge hstates hd.staged.owned
  have hdone : Settles o all true done (some (s.draft d.states).bytes)
      (Snapshot.ofDraft (s.draft d.states)) := by
    refine ⟨⟨hsorted, rfl, Bool.noConfusion, fun _ => rfl, hagrees⟩, fun _ hback => ?_, h.mem,
      fun states hmem => ?_⟩
    · -- The initial bytes as the text of what is written: it says the states of the write.
      have htext := hplain _ hsorted hback.symm hagrees
      have halike := (Document.serialize_eq_iff hsorted hdocument).mp htext
      refine hd.due (hback.symm.trans (congrArg some ?_))
      exact ((Document.serialize_eq_iff (Document.sorted_merge hdocument _) hsorted).mpr
        (Document.WrittenAlike.merge_of_merge hstates halike)).symm
    · exact (h.rests states hmem).write hstates
        (hconsistent states (h.mem states hmem) d.states hd.mem)
  exact hdone.add hd.mem (Snapshot.rests_of_write _ hstates)

/-- **In the beginning** the states of those with nothing to write rest. -/
theorem settles_start (hfaithful : Digest.Faithful δ) (hplain : o.Plain)
    (himages : Images o false content s)
    (hall : ∀ states ∈ all, Sorted states ∧ ∀ n, (get? states n).isSome = true → o.owned n) :
    Settles o all false (all.filter fun states => (s.stage states).isNone) content s := by
  refine ⟨himages, Bool.noConfusion, fun states hmem => (List.mem_filter.mp hmem).1,
    fun states hmem => ?_⟩
  obtain ⟨hmem, hnone⟩ := List.mem_filter.mp hmem
  obtain ⟨hstates, howned⟩ := hall states hmem
  refine Snapshot.rests_of_stage hfaithful himages hstates (fun hcontent => ?_)
    (Option.isNone_iff_eq_none.mp hnone)
  obtain ⟨hfresh, hsame⟩ := himages.fresh rfl
  rw [hplain _ (Document.sorted_merge himages.sorted _) (hfresh.symm.trans hcontent)
    (himages.agrees.merge hstates howned), hsame]

variable {β : Type} [Backing β] [LawfulBacking β]

/-- **After all turns nothing is left to write** for any of the states. The writes
for the storage were staged on what it remembered, those of other storages are
about other locations, and the store takes all of them. -/
theorem Turn.nothing_left {ws : List (String × StagedWrite δ)} {v : Vault β δ} {k : StorageId}
    {s : Storage δ} (hfaithful : Digest.Faithful δ) (hplain : o.Plain)
    (habsent : o.content = none → o.document = []) (hconsistent : Consistent all)
    (hall : ∀ states ∈ all, Sorted states ∧ ∀ n, (get? states n).isSome = true → o.owned n)
    (hs : v.storage? k = some s) (himages : Images o false content s.snapshot)
    (hws : ∀ w ∈ ws, (w.2.storage = k → w.2.unit = s.unit ∧ w.2.draft.Initial o all) ∧
      (w.2.storage ≠ k → w.2.unit.location ≠ s.unit.location))
    (hcovered : ∀ states ∈ all, s.snapshot.stage states = none ∨ states ∈ statesFor k ws)
    (hok : ∀ t ∈ Turn.all ws v, t.answer = .ok ()) :
    ∃ s', (Turn.perform ws v).storage? k = some s' ∧ s'.unit = s.unit ∧
      ∀ states ∈ all, s'.snapshot.stage states = none := by
  have hdocument : Sorted o.document := by
    rw [← (himages.fresh rfl).2]
    exact himages.sorted
  -- What is remembered settles, whatever has become of the unit itself.
  obtain ⟨s', hs', hunit, started, content', hsettles⟩ := Turn.perform_induction
    (fun d => d.Initial o all)
    (fun done _ s => ∃ started content, Settles o all started done content s)
    (fun done _ s d ⟨started, content, hsettles⟩ hd hnone =>
      ⟨started, content, hsettles.drop hfaithful hd hnone⟩)
    (fun done _ s d d' ⟨started, content, hsettles⟩ hd hdue =>
      ⟨true, some d'.bytes, hsettles.write hfaithful hplain hdocument hconsistent hd hdue⟩)
    hs hws hok ⟨false, content, settles_start hfaithful hplain himages hall⟩
  refine ⟨s', hs', hunit, fun states hmem => ?_⟩
  have hdone : states ∈ (all.filter fun states => (s.snapshot.stage states).isNone)
      ++ statesFor k ws := by
    rcases hcovered states hmem with hnone | hturn
    · exact List.mem_append_left _ (List.mem_filter.mpr ⟨hmem, Option.isNone_iff_eq_none.mpr hnone⟩)
    · exact List.mem_append_right _ hturn
  exact (hsettles.rests states hdone).stage hsettles.images habsent (hall states hmem).1

end Settling

end ScopedState
