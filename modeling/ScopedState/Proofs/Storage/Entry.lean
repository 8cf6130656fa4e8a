/-
`Proofs/Storage/Entry.lean` -- one entry on its way to disk and back.

One writer has a state for a name, others write other names of the same unit, and
all of them have staged their states before the first write is carried out. In
the end the unit is read anew, by somebody who remembers nothing. The entry of
the name is then the state, provided that everything else in the unit can be
read at all.

On the way the entry is followed in two places. The document in memory has an
entry of the same text (`Spells`); it may have been read from other bytes, and
the writes do not look further than the text. And the unit, if it were read now,
would have the state itself (`Tells`). Both hold from the moment at which the
writer's states have been written or have turned out to be written already, and
no later write takes that back: not even one that goes to disk as it was staged
because the initial bytes have come back, since these bytes have the entry
too.
-/
import Mathlib.Data.List.Forall2
import ScopedState.Proofs.Json.Reading
import ScopedState.Proofs.Storage.Merging
set_option autoImplicit false

namespace ScopedState

open Bindings (Sorted get?)
open Json (ReadsAs)

/-! ## 1. Entries that are read back -/

/-- The depth to which the entry of a document is read: that of a stored value,
less the object around it. -/
def Document.entryDepth : Nat := 126

/-- **An entry that can be read**, as some value. -/
def Json.Rereadable (v : Json) : Prop := ∃ v', ReadsAs Document.entryDepth 1 v v'

/-- What is storable can be read. -/
theorem Json.Storable.rereadable {v : Json} (h : v.Storable Document.entryDepth) : v.Rereadable :=
  ⟨v, Json.readsAs_self v _ 1 h⟩

namespace Document

variable {d e : Document} {n : String} {c : Json} {content : Option Bytes}

/-- A document is not blank. -/
theorem isBlankContent_serialize (d : Document) : Blank.isBlankContent d.serialize = false := by
  have hbrace : ∃ text, Json.toStored (.object d) = '{' :: text := by
    cases d with
    | nil => exact ⟨_, rfl⟩
    | cons f d => exact ⟨_, rfl⟩
  obtain ⟨text, htext⟩ := hbrace
  rw [serialize, htext]
  rfl

/-- What the object of a document is read as is what the document is parsed as. -/
theorem parse_of_readsAs (h : ReadsAs Json.depthLimit 0 (.object d) (.object e)) (unit : Path) :
    parse unit d.serialize = .ok e := by
  have hvalue : Json.ofBytes d.serialize = .ok (.object e) := by
    rw [Json.ofBytes, serialize, Utf8.decode_encode]
    simp only [Json.read, Json.readWithin, Json.toStored]
    rw [h ['\n'] rfl]
    rfl
  rw [parse, isBlankContent_serialize, Json.objectOfBytes, hvalue]
  rfl

/-- **A document is read back entry by entry**, once all of them can be read. -/
theorem parse_serialize (hd : Sorted d) (h : ∀ n v, get? d n = some v → v.Rereadable)
    (unit : Path) :
    ∃ e, parse unit d.serialize = .ok e ∧ Bindings.keys e = Bindings.keys d ∧
      ∀ n v v', get? d n = some v → ReadsAs entryDepth 1 v v' → get? e n = some v' := by
  classical
  -- What each of the entries is read as.
  let image : Json → Json := fun v => if h : v.Rereadable then h.choose else v
  have himage : ∀ v : Json, v.Rereadable → ReadsAs entryDepth 1 v (image v) := by
    intro v hv
    simp only [image, dif_pos hv]
    exact hv.choose_spec
  have hfields : List.Forall₂ (Json.FieldReadsAs entryDepth 1) d
      (d.map fun f => (f.1, image f.2)) := by
    rw [List.forall₂_map_right_iff, List.forall₂_same]
    exact fun f hf => ⟨rfl, himage f.2 (h f.1 f.2 (hd.get?_of_mem hf))⟩
  have hsorted : Sorted (d.map fun f => (f.1, image f.2)) := hd.mapValues fun f => image f.2
  have hread := Json.readsAs_object (k := 0) hfields
  rw [hsorted.ofList] at hread
  refine ⟨d.map fun f => (f.1, image f.2), parse_of_readsAs hread unit,
    by rw [Bindings.keys, List.map_map]; rfl, fun n v v' hv hv' => ?_⟩
  rw [Bindings.get?_mapEntries d (fun f => image f.2), hv, Option.map_some]
  exact congrArg some ((himage v ⟨v', hv'⟩).unique hv')

/-- What can be parsed is parsed alike for every unit. -/
theorem parse_congr {unit : Path} {bytes : Bytes} (h : parse unit bytes = .ok d) (unit' : Path) :
    parse unit' bytes = .ok d := by
  unfold parse at h ⊢
  split at h
  · rename_i hblank
    rwa [if_pos hblank]
  · rename_i hblank
    rw [if_neg hblank]
    split at h
    · exact h
    · cases h

/-! ## 2. An entry in memory and on disk -/

/-- A document has an entry with the text of a value. -/
def Spells (d : Document) (n : String) (c : Json) : Prop :=
  entryText (get? d n) = some (Json.pretty 1 c)

/-- All entries but one can be read. -/
def RereadableBut (n : String) (d : Document) : Prop :=
  ∀ m, m ≠ n → ∀ v, get? d m = some v → v.Rereadable

/-- A unit, if it is read, has a value for an entry. -/
def Tells (content : Option Bytes) (n : String) (c : Json) : Prop :=
  ∃ bytes, content = some bytes ∧ ∀ unit, ∃ d, parse unit bytes = .ok d ∧ get? d n = some c

/-- **The text of a document tells what it spells**, for values that are read as
they were. -/
theorem tells_of_spells (hd : Sorted d) (hc : c.Storable entryDepth) (hothers : d.RereadableBut n)
    (h : d.Spells n c) : Tells (some d.serialize) n c := by
  obtain ⟨v, hv, htext⟩ := Option.map_eq_some_iff.mp h
  have hreads : ReadsAs entryDepth 1 v c := by
    intro rest hrest
    rw [htext]
    exact Json.readsAs_self c _ 1 hc rest hrest
  have hall : ∀ m v, get? d m = some v → v.Rereadable := by
    intro m w hw
    by_cases hm : m = n
    · rw [hm, hv] at hw
      rw [← Option.some.inj hw]
      exact ⟨c, hreads⟩
    · exact hothers m hm w hw
  refine ⟨d.serialize, rfl, fun unit => ?_⟩
  obtain ⟨e, he, _, hentries⟩ := parse_serialize hd hall unit
  exact ⟨e, he, hentries n v c hv hreads⟩

theorem RereadableBut.merge {states : States} (h : d.RereadableBut n) (hstates : Sorted states)
    (hothers : ∀ m, m ≠ n → ∀ v, get? states m = some (some v) → v.Rereadable) :
    (d.merge states).RereadableBut n := by
  intro m hm v hv
  rw [get?_merge hstates] at hv
  cases hstate : get? states m with
  | none =>
    rw [hstate, Option.getD_none] at hv
    exact h m hm v hv
  | some state =>
    rw [hstate, Option.getD_some] at hv
    rw [hv] at hstate
    exact hothers m hm v hstate

/-- What is merged for a name is spelled. -/
theorem spells_merge {states : States} (hstates : Sorted states)
    (h : get? states n = some (some c)) (d : Document) : (d.merge states).Spells n c := by
  rw [Spells, get?_merge hstates, h]
  rfl

/-- What is spelled goes on being so when nothing is merged for the name. -/
theorem Spells.merge {states : States} (h : d.Spells n c) (hstates : Sorted states)
    (hnone : get? states n = none) : (d.merge states).Spells n c := by
  rw [Spells, get?_merge hstates, hnone]
  exact h

end Document

open Document (Spells Tells RereadableBut entryDepth)

section Units

variable {δ : Type} [DecidableEq δ] [Digest δ] {b s : Snapshot δ} {d e : Document} {n : String}
  {c : Json} {content content₀ : Option Bytes}

omit [DecidableEq δ] in
/-- **What describes a text that spells a value spells it too**, whether it was
read from the text or written to it. -/
theorem Snapshot.Describes.spells (hb : b.Describes (some d.serialize)) (hd : Sorted d)
    (hc : c.Storable entryDepth) (hothers : d.RereadableBut n) (h : d.Spells n c) :
    b.document.Spells n c := by
  rcases hb.present _ rfl with ⟨unit, hparse⟩ | htext
  · obtain ⟨bytes, hbytes, htells⟩ := Document.tells_of_spells hd hc hothers h
    obtain ⟨e, he, hentry⟩ := htells unit
    rw [← Option.some.inj hbytes, hparse] at he
    rw [Spells, Except.ok.inj he, hentry]
    rfl
  · rw [Spells, ← (Document.serialize_eq_iff hd hb.sorted).mp htext n]
    exact h

omit [DecidableEq δ] in
/-- **A unit tells what its storage has** of it, for values that are read as they
were. -/
theorem Snapshot.Describes.tells (hb : b.Describes content) (hc : c.Storable entryDepth)
    (hrest : b.document.RereadableBut n) (hvalue : get? b.document n = some c) :
    Tells content n c := by
  cases content with
  | none =>
    rw [hb.absent rfl] at hvalue
    cases hvalue
  | some bytes =>
    rcases hb.present bytes rfl with ⟨unit, hparse⟩ | htext
    · exact ⟨bytes, rfl, fun unit' => ⟨_, Document.parse_congr hparse unit', hvalue⟩⟩
    · rw [htext]
      refine Document.tells_of_spells hb.sorted hc hrest ?_
      rw [Spells, hvalue]
      rfl

/-- **States that need not be written** are in the unit already. -/
theorem Snapshot.Describes.idle (hfaithful : Digest.Faithful δ) (hb : b.Describes content)
    (hc : c.Storable entryDepth) {states : States} (hstates : Sorted states)
    (hn : get? states n = some (some c)) (hothers : (b.document.merge states).RereadableBut n)
    (hrest : b.document.RereadableBut n) (hnone : b.stage states = none) :
    b.document.Spells n c ∧ Tells content n c := by
  rcases Snapshot.stage_eq_none_iff.mp hnone with ⟨hsame, _⟩ | hwritten
  · -- The entry in memory is equal to the state, so it is the state.
    have hentry := (Document.same_merge_iff hb.sorted hstates).mp hsame n _ hn
    cases hvalue : get? b.document n with
    | none =>
      rw [hvalue] at hentry
      cases hentry
    | some v =>
      rw [hvalue] at hentry
      obtain rfl : v = c := Json.eq_of_same c v entryDepth hc hentry
      refine ⟨?_, hb.tells hc hrest hvalue⟩
      rw [Spells, hvalue]
      rfl
  · -- The bytes are those of the document with the state in it.
    have hcontent : content = some (b.document.merge states).serialize := by
      refine content_eq_of_hash_eq (δ := δ) hfaithful ?_
      rw [← hb.hash]
      exact hwritten
    have hsorted := Document.sorted_merge hb.sorted states
    have hspells := Document.spells_merge hstates hn b.document
    rw [hcontent] at hb ⊢
    exact ⟨hb.spells hsorted hc hothers hspells,
      Document.tells_of_spells hsorted hc hothers hspells⟩

/-! ## 3. Writing -/

/-- A write that was staged before anything was written, with the state for the
name or without one. -/
structure Draft.About (b : Snapshot δ) (n : String) (c : Json) (d : Draft δ) : Prop where
  states : Sorted d.states
  draft : d = b.draft d.states
  entry : get? d.states n = none ∨ get? d.states n = some (some c)
  others : ∀ m, m ≠ n → ∀ v, get? d.states m = some (some v) → v.Rereadable

/-- A unit on its way: nothing has been written yet, or it is the text of what is
remembered; and once the state has been there, it is there. -/
structure Follows (b : Snapshot δ) (content₀ : Option Bytes) (n : String) (c : Json)
    (there : Bool) (content : Option Bytes) (s : Snapshot δ) : Prop where
  sorted : Sorted s.document
  hash : s.hash = content.map Digest.ofBytes
  others : s.document.RereadableBut n
  source : (content = content₀ ∧ s = b) ∨ content = some s.document.serialize
  there : there = true → s.document.Spells n c ∧ Tells content n c

namespace Follows

variable {there : Bool} {dr dr' : Draft δ}

omit [DecidableEq δ] in
/-- A write on top of a document in which the state is, if it is to be there. -/
theorem of_draft (hc : c.Storable entryDepth) (hs : Sorted s.document)
    (hothers : s.document.RereadableBut n) (hd : dr.About b n c)
    (hthere : there = true → s.document.Spells n c) :
    Follows b content₀ n c (there || (get? dr.states n).isSome)
      (some (s.draft dr.states).bytes) (Snapshot.ofDraft (s.draft dr.states)) := by
  have hsorted := Document.sorted_merge hs dr.states
  have hmerged := hothers.merge hd.states hd.others
  refine ⟨hsorted, rfl, hmerged, Or.inr rfl, fun h => ?_⟩
  have hspells : (s.document.merge dr.states).Spells n c := by
    rcases hd.entry with hnone | hsome
    · rw [hnone, Option.isSome_none, Bool.or_false] at h
      exact (hthere h).merge hd.states hnone
    · exact Document.spells_merge hd.states hsome s.document
  exact ⟨hspells, Document.tells_of_spells hsorted hc hmerged hspells⟩

/-- **One write more.** It is based on what is remembered, or its states are staged
again. -/
theorem write (hfaithful : Digest.Faithful δ) (hc : c.Storable entryDepth)
    (hb : b.Describes content₀) (hrest : b.document.RereadableBut n)
    (h : Follows b content₀ n c there content s) (hd : dr.About b n c)
    (hdue : s.rebase dr = some dr') :
    Follows b content₀ n c (there || (get? dr.states n).isSome) (some dr'.bytes)
      (Snapshot.ofDraft dr') := by
  rw [Snapshot.rebase_eq] at hdue
  split at hdue
  · -- The bytes on disk are the initial ones.
    rename_i hbase
    have hcontent : content = content₀ := by
      refine content_eq_of_hash_eq (δ := δ) hfaithful ?_
      rw [← h.hash, ← hb.hash, hbase, hd.draft]
      rfl
    have hdr' : dr' = b.draft dr.states := (Option.some.inj hdue).symm.trans hd.draft
    rw [hdr']
    refine of_draft hc hb.sorted hrest hd fun hthere => ?_
    obtain ⟨hspells, _⟩ := h.there hthere
    rcases h.source with ⟨_, rfl⟩ | htext
    · exact hspells
    · rw [← hcontent, htext] at hb
      exact hb.spells h.sorted hc h.others hspells
  · rw [(Snapshot.stage_eq_some hdue).1]
    exact of_draft hc h.sorted h.others hd fun hthere => (h.there hthere).1

/-- **A write that is dropped** has nothing to add. -/
theorem drop (hfaithful : Digest.Faithful δ) (hc : c.Storable entryDepth)
    (hb : b.Describes content₀) (h : Follows b content₀ n c there content s)
    (hd : dr.About b n c) (hdue : s.rebase dr = none) :
    Follows b content₀ n c (there || (get? dr.states n).isSome) content s := by
  refine ⟨h.sorted, h.hash, h.others, h.source, fun hthere => ?_⟩
  rw [Snapshot.rebase_eq] at hdue
  split at hdue
  · cases hdue
  · rename_i hbase
    -- Something has been written, or the write would be based on what is remembered.
    have htext : content = some s.document.serialize := by
      rcases h.source with ⟨_, rfl⟩ | htext
      · refine absurd ?_ hbase
        rw [hd.draft]
        rfl
      · exact htext
    have hdescribes : s.Describes content := by
      refine ⟨h.sorted, h.hash, fun hnone => ?_, fun bytes hbytes => Or.inr ?_⟩
      · rw [htext] at hnone
        cases hnone
      · exact Option.some.inj (hbytes.symm.trans htext)
    rcases hd.entry with hnone | hsome
    · rw [hnone, Option.isSome_none, Bool.or_false] at hthere
      exact h.there hthere
    · exact hdescribes.idle hfaithful hc hd.states hsome (h.others.merge hd.states hd.others)
        h.others hdue

variable {β : Type} [Backing β] [LawfulBacking β]

/-- **Many writes.** Once the states of the writer have had their turn, or were in
the unit from the beginning, the unit tells the state. -/
theorem perform (there : Bool) (hfaithful : Digest.Faithful δ) (hc : c.Storable entryDepth)
    {ws : List (String × StagedWrite δ)} {v : Vault β δ} {k : StorageId} {st : Storage δ}
    (hst : v.storage? k = some st)
    (hb : st.snapshot.Describes (v.contents st.unit.location))
    (hrest : st.snapshot.document.RereadableBut n)
    (hthere : there = true → st.snapshot.document.Spells n c ∧
      Tells (v.contents st.unit.location) n c)
    (hws : ∀ w ∈ ws, (w.2.storage = k → w.2.unit = st.unit ∧ w.2.draft.About st.snapshot n c) ∧
      (w.2.storage ≠ k → w.2.unit.location ≠ st.unit.location))
    (hok : ∀ t ∈ Turn.all ws v, t.answer = .ok ())
    (hsome : there = true ∨ ∃ states ∈ statesFor k ws, (get? states n).isSome = true) :
    Tells ((Turn.perform ws v).contents st.unit.location) n c := by
  obtain ⟨s', _, _, hend⟩ := Turn.perform_induction (fun d => d.About st.snapshot n c)
    (fun l content s => Follows st.snapshot (v.contents st.unit.location) n c
      (there || l.any fun states => (get? states n).isSome) content s)
    (fun l content s d hl hd hnone => by
      rw [List.any_append, List.any_cons, List.any_nil, Bool.or_false, ← Bool.or_assoc]
      exact hl.drop hfaithful hc hb hd hnone)
    (fun l content s d d' hl hd hdue => by
      rw [List.any_append, List.any_cons, List.any_nil, Bool.or_false, ← Bool.or_assoc]
      exact hl.write hfaithful hc hb hrest hd hdue)
    hst hws hok (l := [])
    ⟨hb.sorted, hb.hash, hrest, Or.inl ⟨rfl, rfl⟩, by
      rwa [List.any_nil, Bool.or_false]⟩
  refine (hend.there ?_).2
  rw [List.nil_append, Bool.or_eq_true, List.any_eq_true]
  exact hsome

end Follows

end Units

end ScopedState
