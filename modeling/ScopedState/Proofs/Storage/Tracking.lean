/-
`Proofs/Storage/Tracking.lean` -- one unit under writes that were staged at
any time.

Several writers stage states for names of their own, on whatever snapshot there
is at the time, and carry the writes out later in any order. The question is
what the unit says in between. For each name it should say what the last write
carried out for that name said. The document in memory is not a witness of
that: a write can be dropped because its document is only equal to the one in
memory, or only written alike. What is tracked is some document that has the
text on disk and says for each name what was written last.

A write that is still up to date goes to disk as it was staged, and up to date
means that the digest on disk is the one it was based on. The same bytes may
have come back in the meantime. That is harmless when the document in memory
was written, because then it has the text of the one before; it is harmless in
general when a document that was read can be told from its text
(`Origin.Legible`).
-/
import ScopedState.Proofs.Storage.Coherence
set_option autoImplicit false

namespace ScopedState

open Bindings (Sorted get?)

/-! ## 1. Where a unit starts -/

/-- A unit when it was loaded, and the names that have a writer. -/
structure Origin where
  content : Option Bytes
  document : Document
  owned : String → Prop

namespace Origin

/-- The document keeps the entries of the names that nobody writes. -/
def Agrees (o : Origin) (d : Document) : Prop :=
  ∀ n, ¬ o.owned n → get? d n = get? o.document n

/-- **What was read can be told from its text**, as far as the names of others
than one writer go: whenever the initial bytes are also those of some document
the writers might have written, that document says for these names what a
document with the text of the one in memory says. -/
def Legible (o : Origin) (mine : String → Prop) : Prop :=
  ∀ d : Document, Sorted d → o.content = some d.serialize → o.Agrees d →
    ∃ e : Document, Sorted e ∧ e.WrittenAlike o.document ∧ o.Agrees e ∧
      ∀ n, o.owned n → ¬ mine n → Json.sameOption (get? e n) (get? d n) = true

/-- **The initial bytes are those of no other text**: a document that the writers
might have written and that has them as its text has the text of the one in
memory. -/
def Plain (o : Origin) : Prop :=
  ∀ d : Document, Sorted d → o.content = some d.serialize → o.Agrees d →
    d.serialize = o.document.serialize

/-- A unit that was last written is plain. -/
theorem Plain.of_text {o : Origin} (h : o.content = some o.document.serialize) : o.Plain :=
  fun _ _ hcontent _ => Option.some.inj (hcontent.symm.trans h)

/-- So is a unit that is not there. -/
theorem Plain.of_absent {o : Origin} (h : o.content = none) : o.Plain :=
  fun _ _ hcontent _ => absurd (h.symm.trans hcontent) (Option.some_ne_none _).symm

/-- What was read of a plain unit can be told from its text. -/
theorem Plain.legible {o : Origin} (h : o.Plain) (hdocument : Sorted o.document)
    (mine : String → Prop) : o.Legible mine := by
  intro d hd hcontent hagrees
  have halike := (Document.serialize_eq_iff hd hdocument).mp (h d hd hcontent hagrees)
  exact ⟨d, hd, halike, hagrees, fun n _ _ => Json.sameOption_refl _⟩

end Origin

variable {δ : Type} [DecidableEq δ] [Digest δ] {o : Origin} {started : Bool}
  {content : Option Bytes} {s : Snapshot δ} {d d' : Draft δ} {expected : String → Option Json}

/-- The snapshot of a unit with some content: the one it was loaded to, until
something has been written, and after that the one last written. -/
structure Images (o : Origin) (started : Bool) (content : Option Bytes) (s : Snapshot δ) :
    Prop where
  sorted : Sorted s.document
  hash : s.hash = content.map Digest.ofBytes
  fresh : started = false → content = o.content ∧ s.document = o.document
  written : started = true → content = some s.document.serialize
  agrees : o.Agrees s.document

/-- The unit says `expected` for every name that has a writer. -/
structure Tracks (o : Origin) (started : Bool) (expected : String → Option Json)
    (content : Option Bytes) (s : Snapshot δ) : Prop where
  images : Images o started content s
  meets : ∃ e : Document, Sorted e ∧ e.WrittenAlike s.document ∧
    (e = s.document ∨ content = some e.serialize) ∧ o.Agrees e ∧
    ∀ n, o.owned n → Json.sameOption (get? e n) (expected n) = true

omit [DecidableEq δ] in
/-- A unit that is not there is remembered as the empty document. -/
theorem Images.absent (h : Images o started content s)
    (habsent : o.content = none → o.document = []) (hcontent : content = none) :
    s.document = [] := by
  cases hstarted : started with
  | true =>
    have hwritten := h.written hstarted
    rw [hcontent] at hwritten
    cases hwritten
  | false =>
    obtain ⟨hfresh, hdocument⟩ := h.fresh hstarted
    rw [hdocument, habsent (hfresh.symm.trans hcontent)]

omit [DecidableEq δ] in
/-- **What describes a unit tracks it** from then on. -/
theorem Tracks.of_describes (h : s.Describes content) (owned : String → Prop) :
    Tracks ⟨content, s.document, owned⟩ false (get? s.document) content s := by
  have himages : Images ⟨content, s.document, owned⟩ false content s :=
    ⟨h.sorted, h.hash, fun _ => ⟨rfl, rfl⟩, Bool.noConfusion, fun _ _ => rfl⟩
  exact ⟨himages, s.document, h.sorted, Document.WrittenAlike.refl _, Or.inl rfl, himages.agrees,
    fun n _ => Json.sameOption_refl _⟩

/-- A write that was staged at some time. -/
structure Draft.From (o : Origin) (started : Bool) (d : Draft δ) : Prop where
  states : Sorted d.states
  owned : ∀ n, (get? d.states n).isSome = true → o.owned n
  base : ∃ earlier content s, (earlier = true → started = true) ∧
    Images o earlier content s ∧ d = s.draft d.states

/-- What is expected after a write of some states. -/
def overwrite (states : States) (expected : String → Option Json) (n : String) : Option Json :=
  (get? states n).getD (expected n)

/-! ## 2. Staging -/

omit [DecidableEq δ] in
/-- Until something has been written, a write that was staged is based on what
was loaded. -/
theorem Draft.From.mono (h : d.From o started) : d.From o true :=
  ⟨h.states, h.owned, h.base.imp fun _ => Exists.imp fun _ => Exists.imp fun _ h =>
    ⟨fun _ => rfl, h.2⟩⟩

/-- **Staging** gives a write to keep track of. -/
theorem Images.stage {states : States} (h : Images o started content s) (hstates : Sorted states)
    (howned : ∀ n, (get? states n).isSome = true → o.owned n) (hd : s.stage states = some d) :
    d.From o started := by
  rw [(Snapshot.stage_eq_some hd).1]
  exact ⟨hstates, howned, started, content, s, id, h, rfl⟩

/-! ## 3. Writing -/

omit [DecidableEq δ] in
/-- States of names that have a writer leave all other names alone. -/
theorem Origin.Agrees.merge {e : Document} {states : States} (he : o.Agrees e)
    (hstates : Sorted states) (howned : ∀ n, (get? states n).isSome = true → o.owned n) :
    o.Agrees (e.merge states) := by
  intro n hn
  have hnone : get? states n = none :=
    Option.not_isSome_iff_eq_none.mp fun hsome => hn (howned n hsome)
  rw [Document.get?_merge hstates, hnone]
  exact he n hn

omit [DecidableEq δ] in
/-- Writing on top of a document. Some document that is written alike has to say
what is expected of the names that are not written. -/
theorem Tracks.of_draft {b : Snapshot δ} {e : Document} (hd : d.From o started)
    (hb : Sorted b.document) (hagrees : o.Agrees b.document) (he : Sorted e)
    (halike : e.WrittenAlike b.document) (heagrees : o.Agrees e)
    (hmeets : ∀ n, o.owned n → get? d.states n = none →
      Json.sameOption (get? e n) (expected n) = true) :
    Tracks o true (overwrite d.states expected) (some (b.draft d.states).bytes)
      (Snapshot.ofDraft (b.draft d.states)) := by
  have hsorted : Sorted (b.document.merge d.states) := Document.sorted_merge hb d.states
  have halike' : (e.merge d.states).WrittenAlike (b.document.merge d.states) :=
    halike.merge hd.states
  refine ⟨⟨hsorted, rfl, Bool.noConfusion, fun _ => rfl, hagrees.merge hd.states hd.owned⟩,
    e.merge d.states, Document.sorted_merge he d.states, halike', Or.inr ?_,
    heagrees.merge hd.states hd.owned, ?_⟩
  · exact congrArg some
      ((Document.serialize_eq_iff (Document.sorted_merge he d.states) hsorted).mpr halike').symm
  · intro n hn
    rw [Document.get?_merge hd.states, overwrite]
    cases hstate : get? d.states n with
    | none => exact hmeets n hn hstate
    | some state => exact Json.sameOption_refl state

omit [DecidableEq δ] in
/-- Faithful digests tell contents apart, also those that are not there. -/
theorem content_eq_of_hash_eq {c c' : Option Bytes} (hfaithful : Digest.Faithful δ)
    (h : c.map (Digest.ofBytes : Bytes → δ) = c'.map Digest.ofBytes) : c = c' :=
  Option.map_injective (fun a b hab => hfaithful a b hab) h

/-- **Writing keeps track.** A write that is due, once it is on disk, makes the
unit say its states for its names, and what it said before for all others. -/
theorem Tracks.write {mine : String → Prop} (hfaithful : Digest.Faithful δ)
    (h : Tracks o started expected content s) (hd : d.From o started) (hlegible : o.Legible mine)
    (hmine : ∀ n, mine n → (get? d.states n).isSome = true) (hdue : s.rebase d = some d') :
    Tracks o true (overwrite d.states expected) (some d'.bytes) (Snapshot.ofDraft d') := by
  obtain ⟨himages, e, he, halike, hholds, hagrees, hmeets⟩ := h
  rw [Snapshot.rebase_eq] at hdue
  split at hdue
  · -- The bytes on disk are the ones that the write was based on.
    rename_i hbase
    obtain ⟨earlier, contentB, b, hearlier, hb, hdraft⟩ := hd.base
    have hcontent : content = contentB := by
      refine content_eq_of_hash_eq (δ := δ) hfaithful ?_
      rw [← himages.hash, ← hb.hash, hbase, hdraft]
      rfl
    have hd' : d' = b.draft d.states := by rw [← Option.some.inj hdue, ← hdraft]
    rw [hd']
    cases hstarted : started with
    | false =>
      have hbdocument : b.document = s.document := by
        cases earlier with
        | false => rw [(hb.fresh rfl).2, (himages.fresh hstarted).2]
        | true =>
          rw [hearlier rfl] at hstarted
          cases hstarted
      exact Tracks.of_draft hd hb.sorted hb.agrees he (hbdocument ▸ halike) hagrees
        fun n hn _ => hmeets n hn
    | true =>
      have hwritten := himages.written hstarted
      cases hearlier' : earlier with
      | true =>
        have htext : s.document.serialize = b.document.serialize := by
          have hbwritten := hb.written hearlier'
          rw [← hcontent, hwritten] at hbwritten
          exact Option.some.inj hbwritten
        have halike' := halike.trans
          ((Document.serialize_eq_iff himages.sorted hb.sorted).mp htext)
        exact Tracks.of_draft hd hb.sorted hb.agrees he halike' hagrees fun n hn _ => hmeets n hn
      | false =>
        -- The initial bytes have come back, but now as the text of `e`.
        obtain ⟨hbcontent, hbdocument⟩ := hb.fresh hearlier'
        have htext : o.content = some e.serialize := by
          rw [← hbcontent, ← hcontent, hwritten]
          exact congrArg some
            ((Document.serialize_eq_iff he himages.sorted).mpr halike).symm
        obtain ⟨e', he', halike', hagrees', hmeets'⟩ := hlegible e he htext hagrees
        refine Tracks.of_draft hd hb.sorted hb.agrees he' (hbdocument ▸ halike') hagrees' ?_
        intro n hn hstate
        have hnot : ¬ mine n := by
          intro hn'
          have hsome := hmine n hn'
          rw [hstate] at hsome
          cases hsome
        exact Json.sameOption_trans (hmeets' n hn hnot) (hmeets n hn)
  · rw [(Snapshot.stage_eq_some hdue).1]
    exact Tracks.of_draft hd himages.sorted himages.agrees he halike hagrees
      fun n hn _ => hmeets n hn

/-! ## 4. Dropping -/

/-- The entries of a document at the names of some states. -/
def Document.entriesAt (d : Document) (states : States) : States :=
  states.map fun entry => (entry.1, get? d entry.1)

theorem Document.sorted_entriesAt (d : Document) {states : States} (hs : Sorted states) :
    Sorted (d.entriesAt states) := hs.mapValues fun entry => get? d entry.1

theorem Document.isSome_entriesAt (d : Document) (states : States) (n : String) :
    (get? (d.entriesAt states) n).isSome = (get? states n).isSome := by
  rw [entriesAt, Bindings.get?_mapEntries states (fun entry => get? d entry.1) n, Option.isSome_map]

/-- Entries that are put back. -/
theorem Document.get?_merge_entriesAt {states : States} (hs : Sorted states) (d e : Document)
    (n : String) :
    get? (e.merge (d.entriesAt states)) n
      = if (get? states n).isSome = true then get? d n else get? e n := by
  rw [Document.get?_merge (d.sorted_entriesAt hs), entriesAt,
    Bindings.get?_mapEntries states (fun entry => get? d entry.1) n]
  cases get? states n <;> rfl

/-- A document that is written alike elsewhere is written alike once the other
entries are put back. -/
theorem Document.writtenAlike_merge_entriesAt {states : States} (hs : Sorted states)
    {d e : Document}
    (h : ∀ n, get? states n = none → entryText (get? e n) = entryText (get? d n)) :
    (e.merge (d.entriesAt states)).WrittenAlike d := by
  intro n
  rw [Document.get?_merge_entriesAt hs]
  cases hstate : get? states n with
  | none => exact h n hstate
  | some state => rfl

section Dropping

variable {states : States} (h : Tracks o started expected content s) (hstates : Sorted states)
  (howned : ∀ n, (get? states n).isSome = true → o.owned n)
include h hstates howned

omit [DecidableEq δ] in
/-- States that are equal to the entries in memory are said already: those
entries stand for them. -/
theorem Tracks.of_equal
    (hequal : ∀ n state, get? states n = some state →
      Json.sameOption state (get? s.document n) = true) :
    Tracks o started (overwrite states expected) content s := by
  obtain ⟨himages, e, he, halike, hholds, hagrees, hmeets⟩ := h
  have hsorted : Sorted (e.merge (s.document.entriesAt states)) := Document.sorted_merge he _
  have halike' : (e.merge (s.document.entriesAt states)).WrittenAlike s.document :=
    Document.writtenAlike_merge_entriesAt hstates fun n _ => halike n
  refine ⟨himages, e.merge (s.document.entriesAt states), hsorted, halike', ?_, ?_, ?_⟩
  · rcases hholds with rfl | hcontent
    · refine Or.inl (hsorted.ext he fun n => ?_)
      rw [Document.get?_merge_entriesAt hstates, ite_self]
    · refine Or.inr (hcontent.trans (congrArg some ?_))
      exact (Document.serialize_eq_iff he hsorted).mpr (halike.trans halike'.symm)
  · refine hagrees.merge (s.document.sorted_entriesAt hstates) fun n hn => howned n ?_
    rwa [Document.isSome_entriesAt] at hn
  · intro n hn
    rw [Document.get?_merge_entriesAt hstates, overwrite]
    cases hstate : get? states n with
    | none => exact hmeets n hn
    | some state => exact Json.sameOption_symm (hequal n state hstate)

omit [DecidableEq δ] in
/-- States whose text is on disk are said already, if it is that of the document
in memory. -/
theorem Tracks.of_text (hcontent : content = some (s.document.merge states).serialize)
    (hsame : (s.document.merge states).serialize = s.document.serialize) :
    Tracks o started (overwrite states expected) content s := by
  obtain ⟨himages, e, he, halike, _, hagrees, hmeets⟩ := h
  have hmerged : Sorted (s.document.merge states) := Document.sorted_merge himages.sorted _
  have hsorted : Sorted (e.merge states) := Document.sorted_merge he _
  have halike' : (e.merge states).WrittenAlike s.document :=
    (halike.merge hstates).trans ((Document.serialize_eq_iff hmerged himages.sorted).mp hsame)
  refine ⟨himages, e.merge states, hsorted, halike', Or.inr ?_, hagrees.merge hstates howned, ?_⟩
  · rw [hcontent, hsame]
    exact congrArg some ((Document.serialize_eq_iff hsorted himages.sorted).mpr halike').symm
  · intro n hn
    rw [Document.get?_merge hstates, overwrite]
    cases get? states n with
    | none => exact hmeets n hn
    | some state => exact Json.sameOption_refl state

/-- **States that need not be written keep track.** Nothing is due for them, so
the unit says them as it is, provided that the bytes on disk are those of no
other text than that of the document in memory. -/
theorem Tracks.nothing_due (hfaithful : Digest.Faithful δ)
    (htext : ∀ d : Document, Sorted d → content = some d.serialize → o.Agrees d →
      d.serialize = s.document.serialize)
    (hnone : s.stage states = none) : Tracks o started (overwrite states expected) content s := by
  have hsorted := h.images.sorted
  rcases Snapshot.stage_eq_none_iff.mp hnone with ⟨hsame, _⟩ | hbytes
  · exact h.of_equal hstates howned ((Document.same_merge_iff hsorted hstates).mp hsame)
  · have hcontent : content = some (s.document.merge states).serialize := by
      refine content_eq_of_hash_eq (δ := δ) hfaithful ?_
      rw [← h.images.hash]
      exact hbytes
    refine h.of_text hstates howned hcontent ?_
    exact htext _ (Document.sorted_merge hsorted _) hcontent
      (h.images.agrees.merge hstates howned)

end Dropping

/-- A write is only dropped once something has been written: until then every
write is based on what is on disk. -/
theorem started_of_dropped (h : Images o started content s) (hd : d.From o started)
    (hdue : s.rebase d = none) : started = true := by
  cases hstarted : started with
  | true => rfl
  | false =>
    obtain ⟨earlier, contentB, b, hearlier, hb, hdraft⟩ := hd.base
    have hfresh : earlier = false := by
      cases earlier with
      | false => rfl
      | true => exact (hearlier rfl).symm.trans hstarted
    have hbase : s.hash = d.base := by
      rw [h.hash, (h.fresh hstarted).1, ← (hb.fresh hfresh).1, ← hb.hash, hdraft]
      rfl
    rw [Snapshot.rebase_eq, if_pos hbase] at hdue
    cases hdue

/-- **Dropping keeps track.** A write that is not due any more need not be
written. -/
theorem Tracks.drop (hfaithful : Digest.Faithful δ) (h : Tracks o started expected content s)
    (hd : d.From o started) (hdue : s.rebase d = none) :
    Tracks o started (overwrite d.states expected) content s := by
  have hwritten := h.images.written (started_of_dropped h.images hd hdue)
  rw [Snapshot.rebase_eq] at hdue
  split at hdue
  · cases hdue
  · refine h.nothing_due hd.states hd.owned hfaithful (fun e _ he _ => ?_) hdue
    exact Option.some.inj (he.symm.trans hwritten)

end ScopedState
