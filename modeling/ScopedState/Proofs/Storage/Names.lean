/-
`Proofs/Storage/Names.lean` -- the names of a unit under staged writes.

Somebody has loaded a unit, and scopes have staged states for it that take no entry
away. When the writes are carried out, the entries that were there stay, and those
of the staged names are added. More is not claimed here: which value an entry has
in the end depends on the order of the writes, but that there is one does not.

Three things are carried from one write to the next. The unit is as it was loaded,
or it has the text of the document in memory. Every entry in memory is regular, and
one that was loaded or written. And the names in memory are those that were loaded
together with those written so far. The one case that needs an argument is that of a write that goes to
disk as it was staged, although other writes have come before it. It does so only
if the bytes are the ones that were loaded; so these already had all the names that
were written in between, since no write has taken one away.

Whether the unit can be read in the end is a matter of depth alone. It can be if all
entries are shallow. If the last states to be written have one that is not, then so
has the unit, and it cannot be read.
-/
import ScopedState.Proofs.Json.Regular
set_option autoImplicit false

namespace ScopedState

open Bindings (Sorted get? keys)
open Document (entryDepth)

variable {content content₀ : Option Bytes} {n : String}

/-! ## 1. Regular documents -/

/-- Every entry of a document is a regular value. -/
def Document.Regular (d : Document) : Prop := ∀ n v, get? d n = some v → v.Regular

/-- No entry of a document nests deeper than one may that is to be read. -/
def Document.Shallow (d : Document) : Prop := ∀ n v, get? d n = some v → v.depth ≤ entryDepth

/-- A document has an entry that nests deeper. -/
def Document.DeepAt (d : Document) (n : String) : Prop :=
  ∃ v, get? d n = some v ∧ entryDepth < v.depth

/-- States that take nothing away, all of them regular. -/
structure States.Regular (states : States) : Prop where
  sorted : Sorted states
  entry : ∀ n x, get? states n = some x → ∃ v, x = some v ∧ v.Regular

/-- States that can be read back once they are entries. -/
def States.Shallow (states : States) : Prop :=
  ∀ n v, get? states n = some (some v) → v.depth ≤ entryDepth

namespace Document

variable {d e : Document} {states : States} {n : String}

theorem mem_keys_merge (hstates : states.Regular) (d : Document) (n : String) :
    n ∈ keys (d.merge states) ↔ n ∈ keys d ∨ n ∈ keys states := by
  rw [Bindings.mem_keys_iff, Bindings.mem_keys_iff, Bindings.mem_keys_iff,
    get?_merge hstates.sorted]
  cases hn : get? states n with
  | none => simp
  | some x =>
    obtain ⟨v, rfl, _⟩ := hstates.entry n x hn
    simp

/-- **An entry of a merged document** is one that was there, or a state. -/
theorem get?_merge_cases (hstates : Sorted states) {n : String} {v : Json}
    (hv : get? (d.merge states) n = some v) :
    get? d n = some v ∨ get? states n = some (some v) := by
  rw [get?_merge hstates] at hv
  cases hn : get? states n with
  | none =>
    rw [hn, Option.getD_none] at hv
    exact Or.inl hv
  | some x =>
    rw [hn, Option.getD_some] at hv
    rw [hv]
    exact Or.inr rfl

theorem Regular.merge (hd : d.Regular) (hstates : states.Regular) : (d.merge states).Regular := by
  intro n v hv
  rcases get?_merge_cases hstates.sorted hv with hv | hn
  · exact hd n v hv
  · obtain ⟨w, hw, hregular⟩ := hstates.entry n _ hn
    rwa [Option.some.inj hw]

theorem Shallow.not_deepAt (h : d.Shallow) (n : String) : ¬ d.DeepAt n :=
  fun ⟨v, hv, hdeep⟩ => absurd (h n v hv) (Nat.not_le_of_lt hdeep)

theorem WrittenAlike.mem_keys (h : WrittenAlike d e) (n : String) : n ∈ keys d ↔ n ∈ keys e := by
  have hn := congrArg Option.isSome (h n)
  rw [entryText, entryText, Option.isSome_map, Option.isSome_map] at hn
  rw [Bindings.mem_keys_iff, Bindings.mem_keys_iff, hn]

/-- Documents of one text have deep entries of the same names. -/
theorem WrittenAlike.deepAt (h : WrittenAlike d e) (hd : d.Regular) (he : e.Regular)
    (hdeep : d.DeepAt n) : e.DeepAt n := by
  obtain ⟨v, hv, hdeep⟩ := hdeep
  have htext := h n
  rw [entryText, hv, Option.map_some] at htext
  obtain ⟨w, hw, htext⟩ := Option.map_eq_some_iff.mp htext.symm
  refine ⟨w, hw, Nat.lt_of_not_le fun hshallow => Nat.not_le_of_lt hdeep ?_⟩
  -- How deep a value is can be told from its text.
  obtain ⟨x, hx⟩ := (Json.exists_readsAs_iff (k := 1) (he n w hw)).mpr hshallow
  refine (Json.exists_readsAs_iff (k := 1) (hd n v hv)).mp ⟨x, fun rest hrest => ?_⟩
  rw [← htext]
  exact hx rest hrest

/-- **What is parsed is regular and shallow**: the object around the entries is one
container. -/
theorem within_of_parse {unit : Path} {bytes : Bytes} (h : parse unit bytes = .ok d) :
    d.Regular ∧ d.Shallow := by
  suffices hwithin : ∀ n v, get? d n = some v → v.Within entryDepth from
    ⟨fun n v hv => (hwithin n v hv).1, fun n v hv => (hwithin n v hv).2⟩
  intro n v hv
  unfold parse at h
  split at h
  · rw [← Except.ok.inj h] at hv
    cases hv
  · split at h
    · rename_i fields hfields
      rw [← Except.ok.inj h] at hv
      unfold Json.objectOfBytes at hfields
      split at hfields
      · cases hfields
      · rename_i fields' hread
        rw [← Except.ok.inj hfields] at hv
        unfold Json.ofBytes at hread
        split at hread
        · cases hread
        · exact Json.within_object.mp (Json.within_read hread) (n, v) (Bindings.mem_of_get? hv)
      · cases hfields
    · cases h

/-- **A regular document is read back** with the same names, if it is shallow. -/
theorem parse_shallow (hd : Sorted d) (hregular : d.Regular) (hshallow : d.Shallow) (unit : Path) :
    ∃ e, parse unit d.serialize = .ok e ∧ keys e = keys d := by
  obtain ⟨e, he, hkeys, _⟩ := parse_serialize hd
    (fun n v hv => Json.Within.rereadable ⟨hregular n v hv, hshallow n v hv⟩) unit
  exact ⟨e, he, hkeys⟩

/-- **A regular document that is read back is shallow.** -/
theorem shallow_of_serialized (hd : Sorted d) (hregular : d.Regular) {unit : Path}
    (h : parse unit d.serialize = .ok e) : d.Shallow := by
  intro n v hv
  by_contra hdeep
  have hobject : entryDepth + 1 < (Json.object d).depth := by
    refine Nat.succ_lt_succ (Nat.lt_of_not_le fun hle => hdeep ?_)
    exact (Json.depthFields_le_iff d).mp hle (n, v) (Bindings.mem_of_get? hv)
  have hfields : (Json.object d).Regular :=
    (Json.regularFields_iff d).mpr fun f hf => hregular f.1 f.2 (hd.get?_of_mem hf)
  obtain ⟨fault, hfault⟩ := Json.readValue_deep _ _ 0 hfields hobject ['\n']
  have hvalue : Json.ofBytes d.serialize = .error fault := by
    rw [Json.ofBytes, serialize, Utf8.decode_encode]
    simp only [Json.read, Json.readWithin, Json.toStored]
    have hdepth : Json.depthLimit = entryDepth + 1 := rfl
    rw [hdepth, hfault]
  rw [parse, isBlankContent_serialize, Json.objectOfBytes, hvalue] at h
  cases h

end Document

section Units

variable {δ : Type} [DecidableEq δ] [Digest δ] {b s : Snapshot δ} {d : Document} {states : States}

namespace Snapshot.Describes

omit [DecidableEq δ] in
/-- **What describes the text of a document has its names**, whether it was read from
the text or written to it. -/
theorem mem_keys (hb : b.Describes (some d.serialize)) (hd : Sorted d) (hregular : d.Regular)
    (n : String) : n ∈ keys b.document ↔ n ∈ keys d := by
  rcases hb.present _ rfl with ⟨unit, hparse⟩ | htext
  · have hshallow := Document.shallow_of_serialized hd hregular hparse
    obtain ⟨e, he, hkeys⟩ := Document.parse_shallow hd hregular hshallow unit
    rw [hparse] at he
    rw [Except.ok.inj he, hkeys]
  · exact ((Document.serialize_eq_iff hd hb.sorted).mp htext).symm.mem_keys n

omit [DecidableEq δ] in
/-- It has the deep entries of the document, too: what was read from the text has none,
but then neither has the document. -/
theorem deepAt (hb : b.Describes (some d.serialize)) (hregular : b.document.Regular)
    (hd : Sorted d) (hd' : d.Regular) (hdeep : d.DeepAt n) : b.document.DeepAt n := by
  rcases hb.present _ rfl with ⟨unit, hparse⟩ | htext
  · exact absurd hdeep ((Document.shallow_of_serialized hd hd' hparse).not_deepAt n)
  · exact ((Document.serialize_eq_iff hd hb.sorted).mp htext).deepAt hd' hregular hdeep

omit [DecidableEq δ] in
/-- **Whether a unit can be read** is told by what describes it. -/
theorem parse_iff {bytes : Bytes} (hb : b.Describes (some bytes)) (hregular : b.document.Regular)
    (unit : Path) :
    (∃ e, Document.parse unit bytes = .ok e ∧ ∀ n, n ∈ keys e ↔ n ∈ keys b.document) ↔
      b.document.Shallow := by
  rcases hb.present bytes rfl with ⟨unit', hparse⟩ | rfl
  · exact ⟨fun _ => (Document.within_of_parse hparse).2,
      fun _ => ⟨_, Document.parse_congr hparse unit, fun n => Iff.rfl⟩⟩
  · constructor
    · rintro ⟨e, he, _⟩
      exact Document.shallow_of_serialized hb.sorted hregular he
    · intro hshallow
      obtain ⟨e, he, hkeys⟩ := Document.parse_shallow hb.sorted hregular hshallow unit
      exact ⟨e, he, fun n => by rw [hkeys]⟩

omit [DecidableEq δ] in
/-- The bytes of states that need not be written are those of the document with the states
in it, unless the document stays equal. -/
theorem content_of_written (hfaithful : Digest.Faithful δ) (hb : b.Describes content)
    (hwritten : b.Written states) : content = some (b.document.merge states).serialize := by
  refine content_eq_of_hash_eq (δ := δ) hfaithful ?_
  rw [← hb.hash]
  exact hwritten

/-- **States that need not be written** are of names that are there. -/
theorem mem_keys_of_idle (hfaithful : Digest.Faithful δ) (hb : b.Describes content)
    (hregular : b.document.Regular) (hstates : states.Regular) (hnone : b.stage states = none)
    (hn : n ∈ keys states) : n ∈ keys b.document := by
  rcases Snapshot.stage_eq_none_iff.mp hnone with ⟨hsame, _⟩ | hwritten
  · obtain ⟨x, hx⟩ := Option.isSome_iff_exists.mp (Bindings.mem_keys_iff.mp hn)
    obtain ⟨v, rfl, _⟩ := hstates.entry n x hx
    have hentry := (Document.same_merge_iff hb.sorted hstates.sorted).mp hsame n _ hx
    exact Bindings.mem_keys_iff.mpr (Json.isSome_of_sameOption hentry)
  · have hmerged := (Document.mem_keys_merge hstates b.document n).mpr (Or.inr hn)
    rw [hb.content_of_written hfaithful hwritten] at hb
    exact (hb.mem_keys (Document.sorted_merge hb.sorted states) (hregular.merge hstates) n).mpr
      hmerged

/-- **A deep state that need not be written** is one of a name that has a deep entry. -/
theorem deepAt_of_idle (hfaithful : Digest.Faithful δ) (hb : b.Describes content)
    (hregular : b.document.Regular) (hstates : states.Regular) (hnone : b.stage states = none)
    {v : Json} (hn : get? states n = some (some v)) (hdeep : entryDepth < v.depth) :
    b.document.DeepAt n := by
  rcases Snapshot.stage_eq_none_iff.mp hnone with ⟨hsame, _⟩ | hwritten
  · have hentry := (Document.same_merge_iff hb.sorted hstates.sorted).mp hsame n _ hn
    obtain ⟨w, hw⟩ := Option.isSome_iff_exists.mp (Json.isSome_of_sameOption hentry)
    rw [hw] at hentry
    refine ⟨w, hw, ?_⟩
    rwa [← Json.depth_eq_of_same v w hentry]
  · have hmerged : (b.document.merge states).DeepAt n := by
      refine ⟨v, ?_, hdeep⟩
      rw [Document.get?_merge hstates.sorted, hn, Option.getD_some]
    rw [hb.content_of_written hfaithful hwritten] at hb
    exact hb.deepAt hregular (Document.sorted_merge hb.sorted states) (hregular.merge hstates)
      hmerged

end Snapshot.Describes

/-! ## 2. Writing -/

/-- A unit on its way: it is as it was loaded, or it is the text of what is
remembered, and the names of some states have been added. A deep entry of the last of
these states has left one. -/
structure Carried (b : Snapshot δ) (content₀ : Option Bytes) (l : List States)
    (content : Option Bytes) (s : Snapshot δ) : Prop where
  sorted : Sorted s.document
  hash : s.hash = content.map Digest.ofBytes
  regular : s.document.Regular
  source : (content = content₀ ∧ s = b) ∨ content = some s.document.serialize
  names : ∀ n, n ∈ keys s.document ↔ n ∈ keys b.document ∨ ∃ states ∈ l, n ∈ keys states
  entry : ∀ n v, get? s.document n = some v →
    get? b.document n = some v ∨ ∃ states ∈ l, get? states n = some (some v)
  last : ∀ states, l.getLast? = some states → ∀ n v, get? states n = some (some v) →
    entryDepth < v.depth → s.document.DeepAt n

namespace Carried

variable {l : List States} {dr dr' : Draft δ}

omit [DecidableEq δ] in
theorem start (hb : b.Describes content₀) (hregular : b.document.Regular) :
    Carried b content₀ [] content₀ b where
  sorted := hb.sorted
  hash := hb.hash
  regular := hregular
  source := Or.inl ⟨rfl, rfl⟩
  names n := by simp
  entry n v hv := Or.inl hv
  last states hlast := nomatch hlast

omit [DecidableEq δ] in
/-- A unit is described by what is carried along with it. -/
theorem describes (hb : b.Describes content₀) (h : Carried b content₀ l content s) :
    s.Describes content := by
  rcases h.source with ⟨rfl, rfl⟩ | htext
  · exact hb
  · refine ⟨h.sorted, h.hash, fun hnone => ?_, fun bytes hbytes => Or.inr ?_⟩
    · rw [htext] at hnone
      cases hnone
    · exact Option.some.inj (hbytes.symm.trans htext)

omit [DecidableEq δ] in
/-- What is carried is shallow if that is true of what was loaded and of what was
written. -/
theorem shallow (h : Carried b content₀ l content s) (hb : b.document.Shallow)
    (hl : ∀ states ∈ l, states.Shallow) : s.document.Shallow := by
  intro n v hv
  rcases h.entry n v hv with hloaded | ⟨states, hstates, hwritten⟩
  · exact hb n v hloaded
  · exact hl states hstates n v hwritten

omit [DecidableEq δ] in
/-- States merged into a document that has all names so far. -/
theorem of_draft (hs : Sorted s.document) (hregular : s.document.Regular)
    (hstates : states.Regular)
    (hnames : ∀ n, n ∈ keys s.document ↔ n ∈ keys b.document ∨ ∃ states ∈ l, n ∈ keys states)
    (hentry : ∀ n v, get? s.document n = some v →
      get? b.document n = some v ∨ ∃ states ∈ l, get? states n = some (some v)) :
    Carried b content₀ (l ++ [states]) (some (s.draft states).bytes)
      (Snapshot.ofDraft (s.draft states)) where
  sorted := Document.sorted_merge hs states
  hash := rfl
  regular := hregular.merge hstates
  source := Or.inr rfl
  names n := by
    refine (Document.mem_keys_merge hstates s.document n).trans ?_
    rw [hnames]
    simp only [List.mem_append, List.mem_singleton, or_and_right, exists_or, exists_eq_left,
      or_assoc]
  entry n v hv := by
    rcases Document.get?_merge_cases hstates.sorted hv with hbefore | hnew
    · refine (hentry n v hbefore).imp_right ?_
      rintro ⟨states', hmem, hstate⟩
      exact ⟨states', List.mem_append_left _ hmem, hstate⟩
    · exact Or.inr ⟨states, List.mem_append_right _ List.mem_cons_self, hnew⟩
  last states' hlast n v hn hdeep := by
    rw [List.getLast?_concat] at hlast
    obtain rfl := Option.some.inj hlast
    refine ⟨v, ?_, hdeep⟩
    exact (Document.get?_merge hstates.sorted _ n).trans (by rw [hn, Option.getD_some])

/-- **One write more.** It is based on what is remembered, or its states are staged
again. -/
theorem write (hfaithful : Digest.Faithful δ) (hb : b.Describes content₀)
    (hregular : b.document.Regular) (h : Carried b content₀ l content s)
    (hdraft : dr = b.draft dr.states) (hstates : dr.states.Regular)
    (hdue : s.rebase dr = some dr') :
    Carried b content₀ (l ++ [dr.states]) (some dr'.bytes) (Snapshot.ofDraft dr') := by
  rw [Snapshot.rebase_eq] at hdue
  split at hdue
  · -- The bytes on disk are the initial ones, so these have all names that were added.
    rename_i hbase
    have hcontent : content = content₀ := by
      refine content_eq_of_hash_eq (δ := δ) hfaithful ?_
      rw [← h.hash, ← hb.hash, hbase, hdraft]
      rfl
    have hsame : ∀ n, n ∈ keys b.document ↔ n ∈ keys s.document := by
      rcases h.source with ⟨_, rfl⟩ | htext
      · exact fun n => Iff.rfl
      · rw [← hcontent, htext] at hb
        exact hb.mem_keys h.sorted h.regular
    have hdr' : dr' = b.draft dr.states := (Option.some.inj hdue).symm.trans hdraft
    rw [hdr']
    exact of_draft hb.sorted hregular hstates (fun n => (hsame n).trans (h.names n))
      fun n v hv => Or.inl hv
  · rw [(Snapshot.stage_eq_some hdue).1]
    exact of_draft h.sorted h.regular hstates h.names h.entry

/-- **A write that is dropped** has no names to add. -/
theorem drop (hfaithful : Digest.Faithful δ) (hb : b.Describes content₀)
    (h : Carried b content₀ l content s) (hstates : dr.states.Regular)
    (hdue : s.rebase dr = none) : Carried b content₀ (l ++ [dr.states]) content s := by
  rw [Snapshot.rebase_eq] at hdue
  split at hdue
  · cases hdue
  · refine ⟨h.sorted, h.hash, h.regular, h.source, fun n => ?_, fun n v hv => ?_,
      fun states hlast n v hn hdeep => ?_⟩
    · have hidle : n ∈ keys dr.states → n ∈ keys s.document := (h.describes hb).mem_keys_of_idle
        hfaithful h.regular hstates hdue
      simp only [List.mem_append, List.mem_singleton, or_and_right, exists_or, exists_eq_left,
        ← or_assoc]
      rw [← h.names]
      exact ⟨Or.inl, fun hn => hn.elim id hidle⟩
    · refine (h.entry n v hv).imp_right ?_
      rintro ⟨states, hmem, hstate⟩
      exact ⟨states, List.mem_append_left _ hmem, hstate⟩
    · rw [List.getLast?_concat] at hlast
      obtain rfl := Option.some.inj hlast
      exact (h.describes hb).deepAt_of_idle hfaithful h.regular hstates hdue hn hdeep

end Carried

end Units

end ScopedState
