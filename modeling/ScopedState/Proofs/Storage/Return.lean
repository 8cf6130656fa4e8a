/-
`Proofs/Storage/Return.lean` -- when the bytes come back.

Nothing is lost as long as the initial content can be told from its text. This
is not more than is needed. Suppose the content is read as one document and is
the text of another one that the parties can write. A party stages a write at
once, the other parties then write the other document, entry by entry, and the
bytes on disk are those from the beginning. Now the first party finishes: the
digest is the one its write was based on, so the write goes to disk as it was
staged, and with it what was read at first.

To get there each party first writes something that has neither the text of
what is there nor that of what it is going to write, so that no write is
dropped on the way.
-/
import ScopedState.Proofs.Storage.Interleaving
set_option autoImplicit false

namespace ScopedState

open Bindings (Sorted get?)

/-! ## 1. Values that stand out -/

/-- A value is plain when no other value is equal to it. -/
def Json.Plain (v : Json) : Prop := ∀ w, same v w = true → w = v

theorem Json.plain_null : Plain null := by
  intro w h
  cases w <;> simp_all [same]

theorem Json.plain_bool (b : Bool) : Plain (bool b) := by
  intro w h
  cases w <;> simp_all [same]

/-- A double that is not zero is equal to itself alone. -/
theorem Json.plain_float {y : Binary64} (hy : y.significand ≠ 0) : Plain (float y) := by
  intro w h
  cases w with
  | float z =>
    rw [same, Binary64.same_iff] at h
    obtain ⟨hsignificand, hzero | ⟨hsign, hexponent⟩⟩ := h
    · exact absurd hzero hy
    · obtain ⟨negative, significand, exponent⟩ := y
      obtain ⟨negative', significand', exponent'⟩ := z
      cases hsignificand
      cases hsign
      cases hexponent
      rfl
  | _ => simp [same] at h

namespace Document

/-- An entry of one text is not equal to a plain one of another text. -/
theorem not_same_of_plain {v : Json} {entry : Option Json} (hv : v.Plain)
    (h : entryText (some v) ≠ entryText entry) : ¬ Json.sameOption (some v) entry = true := by
  intro hsame
  cases entry with
  | none => cases hsame
  | some w => exact h (by rw [hv w hsame])

/-- **Some plain value has neither of two texts.** -/
theorem exists_plain (a b : Option Json) :
    ∃ v : Json, v.Plain ∧ entryText (some v) ≠ entryText a ∧ entryText (some v) ≠ entryText b := by
  have hnull : entryText (some .null) = some ['n', 'u', 'l', 'l'] := rfl
  have htrue : entryText (some (.bool true)) = some ['t', 'r', 'u', 'e'] := rfl
  have hfalse : entryText (some (.bool false)) = some ['f', 'a', 'l', 's', 'e'] := rfl
  by_cases hn : entryText (some .null) = entryText a ∨ entryText (some .null) = entryText b
  · by_cases ht : entryText (some (.bool true)) = entryText a ∨
        entryText (some (.bool true)) = entryText b
    · -- The two texts are those of `null` and `true`.
      refine ⟨.bool false, Json.plain_bool false, ?_⟩
      rw [hnull] at hn
      rw [htrue] at ht
      rw [hfalse]
      rcases hn with hn | hn <;> rcases ht with ht | ht
      · exact absurd (hn.trans ht.symm) (by decide)
      · exact ⟨by rw [← hn]; decide, by rw [← ht]; decide⟩
      · exact ⟨by rw [← ht]; decide, by rw [← hn]; decide⟩
      · exact absurd (hn.trans ht.symm) (by decide)
    · exact ⟨.bool true, Json.plain_bool true, not_or.mp ht⟩
  · exact ⟨.null, Json.plain_null, not_or.mp hn⟩

end Document

namespace Parties

variable {ι δ : Type} [DecidableEq ι] [DecidableEq δ] [Digest δ]

/-! ## 2. One write, not dropped and not refused -/

/-- The unit at `path`, in a store in memory that refuses nothing, holds some
content and is remembered as some document, and one write is under way. -/
structure At (path : Path) (x : Outstanding ι δ) (document : Document) (content : Option Bytes)
    (ps : Parties ι Memory δ) : Prop where
  storage : ∃ s, ps.vault.storage? 0 = some s ∧ s.unit = path ∧ s.snapshot.document = document ∧
    s.snapshot.hash = content.map Digest.ofBytes
  content : ps.vault.contents path.location = content
  writable : ps.vault.backing.readOnly = []
  outstanding : ps.outstanding = [x]

omit [DecidableEq ι] in
/-- A store in memory without read-only units takes every write. -/
theorem carryOut_writable {v : Vault Memory δ} (h : v.backing.readOnly = []) (w : StagedWrite δ) :
    (v.carryOut w).1 = .ok () ∧ (v.carryOut w).2.backing.readOnly = [] := by
  have haccepts : ∀ unit bytes, (v.backing.write unit bytes).1 = .ok () ∧
      (v.backing.write unit bytes).2.readOnly = [] := by
    intro unit bytes
    have hwritable : v.backing.isWritable unit = true := by
      rw [Memory.isWritable, h]
      rfl
    rw [Memory.write, if_pos hwritable]
    exact ⟨rfl, h⟩
  rcases v.carryOut_cases w with
    ⟨_, hout⟩ | ⟨w', backing, _, hwrite, hout⟩ | ⟨w', backing, e, _, hwrite, hout⟩
  · rw [hout]
    exact ⟨rfl, h⟩
  · rw [hout]
    have hmemory : v.backing.write w'.unit w'.draft.bytes = (.ok (), backing) := hwrite
    have hreadOnly := (haccepts w'.unit w'.draft.bytes).2
    rw [hmemory] at hreadOnly
    exact ⟨rfl, hreadOnly⟩
  · have hmemory : v.backing.write w'.unit w'.draft.bytes = (.error e, backing) := hwrite
    have hok := (haccepts w'.unit w'.draft.bytes).1
    rw [hmemory] at hok
    cases hok

variable {names : ι → List String} {path : Path} {x : Outstanding ι δ} {document d : Document}
  {content : Option Bytes} {ps : Parties ι Memory δ}

omit [DecidableEq ι] in
/-- States are due when some entry is not equal to the one in memory, and the
text is not that on disk. -/
theorem stage_of_differs (hfaithful : Digest.Faithful δ) {s : Snapshot δ} {states : States}
    (hs : Sorted s.document) (hstates : Sorted states) (hhash : s.hash = content.map Digest.ofBytes)
    {n : String} {state : Option Json} (hn : get? states n = some state)
    (hdiffers : ¬ Json.sameOption state (get? s.document n) = true)
    (htext : content ≠ some (s.document.merge states).serialize) :
    s.stage states = some (s.draft states) := by
  rw [Snapshot.stage_eq, if_neg]
  -- Nothing would be due if the states were there, or if the unit had their text.
  rintro (⟨hsame, _⟩ | hwritten)
  · exact hdiffers ((Document.same_merge_iff hs hstates).mp hsame n state hn)
  · have hdigests : content.map (Digest.ofBytes : Bytes → δ)
        = (some (s.document.merge states).serialize).map Digest.ofBytes := by
      rw [← hhash]
      exact hwritten
    exact htext (content_eq_of_hash_eq hfaithful hdigests)

/-- **A party writes** something that is due. -/
theorem At.write (hfaithful : Digest.Faithful δ) (h : At path x document content ps)
    (hdocument : Sorted document) (q : ι) (value : String → Option Json) {n : String}
    (hn : n ∈ names q) (hdiffers : ¬ Json.sameOption (value n) (get? document n) = true)
    (htext : content ≠ some (document.merge (statesOf (names q) value)).serialize) :
    At path x (document.merge (statesOf (names q) value))
        (some (document.merge (statesOf (names q) value)).serialize)
        (ps.run names 0 [.stage q value, .finish 1]) ∧
      ∀ p, (ps.run names 0 [.stage q value, .finish 1]).finished p
        = if p = q then some value else ps.finished p := by
  obtain ⟨s, hs, hunit, hsdocument, hhash⟩ := h.storage
  have hstates := sorted_statesOf (names q) value
  have hvalue : get? (statesOf (names q) value) n = some (value n) := by
    rw [get?_statesOf, if_pos hn]
  have hstage : s.snapshot.stage (statesOf (names q) value)
      = some (s.snapshot.draft (statesOf (names q) value)) :=
    stage_of_differs hfaithful (hsdocument ▸ hdocument) hstates hhash hvalue
      (hsdocument ▸ hdiffers) (hsdocument ▸ htext)
  let w : StagedWrite δ := ⟨0, s.unit, s.snapshot.draft (statesOf (names q) value)⟩
  have hstaged : ps.stage names 0 q value = { ps with outstanding := [x, ⟨q, value, w⟩] } := by
    unfold Parties.stage
    rw [Vault.stage, hs]
    simp only [hstage, Option.map_some, h.outstanding]
    rfl
  have hrun : ps.run names 0 [.stage q value, .finish 1]
      = { vault := (ps.vault.carryOut w).2
          outstanding := [x]
          finished := fun p => if p = q then some value else ps.finished p } := by
    show (ps.stage names 0 q value).finish 1 = _
    rw [hstaged, Parties.finish]
    simp [(carryOut_writable h.writable w).1, Except.isOk, Except.toBool]
  -- The write is finished right after it was staged, so it is up to date.
  have hrebase : s.snapshot.rebase w.draft = some w.draft := if_pos rfl
  rw [hrun]
  refine ⟨?_, fun p => rfl⟩
  rcases Vault.carryOut_unit (w := w) hs rfl with
    ⟨hnone, _⟩ | ⟨draft, hdraft, _, hstorage, hcontents⟩ | ⟨⟨e, he⟩, _, _⟩
  · rw [hrebase] at hnone
    cases hnone
  · rw [hrebase] at hdraft
    rw [← Option.some.inj hdraft] at hstorage hcontents
    refine ⟨⟨_, hstorage, hunit, ?_, ?_⟩, ?_, (carryOut_writable h.writable w).2, rfl⟩
    · rw [← hsdocument]
      rfl
    · rw [← hsdocument]
      rfl
    · rw [← hunit, hcontents, ← hsdocument]
      rfl
  · rw [(carryOut_writable h.writable w).1] at he
    cases he

/-- **A write that was staged first goes to disk as it was staged**, if the
bytes on disk are the ones it was based on. -/
theorem At.finish (h : At path x document content ps) (hstorage : x.write.storage = 0)
    (hunit : x.write.unit = path) (hbase : x.write.draft.base = content.map Digest.ofBytes) :
    (ps.finish 0).vault.contents path.location = some x.write.draft.bytes ∧
      ∀ q, (ps.finish 0).finished q = if q = x.party then some x.value else ps.finished q := by
  obtain ⟨s, hs, hsunit, _, hhash⟩ := h.storage
  have hrebase : s.snapshot.rebase x.write.draft = some x.write.draft :=
    if_pos (hhash.trans hbase.symm)
  have hok := (carryOut_writable h.writable x.write).1
  have hfinish : ps.finish 0
      = { vault := (ps.vault.carryOut x.write).2
          outstanding := []
          finished := fun q => if q = x.party then some x.value else ps.finished q } := by
    rw [Parties.finish, h.outstanding]
    simp [hok, Except.isOk, Except.toBool]
  rw [hfinish]
  refine ⟨?_, fun q => rfl⟩
  rcases Vault.carryOut_unit (w := x.write) (hstorage ▸ hs) (hunit.trans hsunit.symm) with
    ⟨hnone, _⟩ | ⟨draft, hdraft, _, _, hcontents⟩ | ⟨⟨e, he⟩, _, _⟩
  · rw [hrebase] at hnone
    cases hnone
  · rw [hrebase] at hdraft
    rw [← hsunit, Option.some.inj hdraft]
    exact hcontents
  · rw [hok] at he
    cases he

/-! ## 3. Writing a whole document -/

/-- A document with some names' entries taken from another one. -/
def taking (names : List String) (d document : Document) : Document :=
  document.merge (statesOf names fun n => get? d n)

theorem get?_taking (names : List String) (d document : Document) (n : String) :
    get? (taking names d document) n = if n ∈ names then get? d n else get? document n := by
  rw [taking, Document.get?_merge (sorted_statesOf _ _), get?_statesOf]
  split <;> rfl

/-- **A party gets its entries of a document on disk**: it writes something
else first, and then those. -/
theorem At.take (hfaithful : Digest.Faithful δ) (h : At path x document content ps)
    (hdocument : Sorted document) (hd : Sorted d)
    (hcontent : content = some document.serialize ∨ content = some d.serialize) {q : ι}
    (hq : names q ≠ []) :
    ∃ moves : List (Move ι Memory), (∀ m ∈ moves, m.Harmless) ∧
      At path x (taking (names q) d document) (some (taking (names q) d document).serialize)
        (ps.run names 0 moves) ∧
      ∀ p, (ps.run names 0 moves).finished p
        = if p = q then some fun n => get? d n else ps.finished p := by
  obtain ⟨n, hn⟩ := List.exists_mem_of_ne_nil _ hq
  obtain ⟨v, hplain, hthere, hgoal⟩ := Document.exists_plain (get? document n) (get? d n)
  let other : String → Option Json := fun _ => some v
  let between := document.merge (statesOf (names q) other)
  have hbetween : Sorted between := Document.sorted_merge hdocument _
  have hentry : get? between n = some v := by
    rw [Document.get?_merge (sorted_statesOf _ _), get?_statesOf, if_pos hn]
    rfl
  -- The value in between has neither the text of what is there nor that of the goal.
  have htext : content ≠ some between.serialize := by
    intro h
    rcases hcontent with hc | hc
    · have halike := (Document.serialize_eq_iff hdocument hbetween).mp (Option.some.inj (hc ▸ h)) n
      rw [hentry] at halike
      exact hthere halike.symm
    · have halike := (Document.serialize_eq_iff hd hbetween).mp (Option.some.inj (hc ▸ h)) n
      rw [hentry] at halike
      exact hgoal halike.symm
  obtain ⟨hat, hfinished⟩ := h.write hfaithful hdocument q other hn
    (Document.not_same_of_plain hplain hthere) htext
  -- The second write leaves no trace of the first: it is about the same names.
  have htaken : between.merge (statesOf (names q) fun n => get? d n)
      = taking (names q) d document := by
    refine Bindings.Sorted.ext (Document.sorted_merge hbetween _)
      (Document.sorted_merge hdocument _) fun m => ?_
    rw [Document.get?_merge (sorted_statesOf _ _), get?_taking, get?_statesOf,
      Document.get?_merge (sorted_statesOf _ _), get?_statesOf]
    split <;> rfl
  have hdiffers : ¬ Json.sameOption (get? d n) (get? between n) = true := by
    rw [hentry]
    exact fun hsame => Document.not_same_of_plain hplain hgoal (Json.sameOption_symm hsame)
  have htext' : some between.serialize
      ≠ some (between.merge (statesOf (names q) fun n => get? d n)).serialize := by
    intro h
    have halike := (Document.serialize_eq_iff hbetween (Document.sorted_merge hbetween _)).mp
      (Option.some.inj h) n
    rw [hentry, Document.get?_merge (sorted_statesOf _ _), get?_statesOf, if_pos hn] at halike
    exact hgoal halike
  obtain ⟨hat', hfinished'⟩ := hat.write hfaithful hbetween q (fun n => get? d n) hn hdiffers htext'
  rw [htaken] at hat'
  refine ⟨[.stage q other, .finish 1, .stage q fun n => get? d n, .finish 1], ?_, hat', ?_⟩
  · intro m hm
    simp only [List.mem_cons, List.not_mem_nil, or_false] at hm
    rcases hm with rfl | rfl | rfl | rfl <;> exact trivial
  · intro p
    refine (hfinished' p).trans ?_
    rw [hfinished]
    split <;> rfl

/-- A document with the entries of several parties taken from another one. -/
def takingAll (names : ι → List String) (d : Document) (qs : List ι) (document : Document) :
    Document := qs.foldl (fun document q => taking (names q) d document) document

omit [DecidableEq ι] in
theorem sorted_taking (ns : List String) (d : Document) (hdocument : Sorted document) :
    Sorted (taking ns d document) := Document.sorted_merge hdocument _

omit [DecidableEq ι] in
theorem sorted_takingAll (qs : List ι) (hdocument : Sorted document) :
    Sorted (takingAll names d qs document) := by
  induction qs generalizing document with
  | nil => exact hdocument
  | cons q qs ih => exact ih (sorted_taking (names q) d hdocument)

omit [DecidableEq ι] in
/-- Names that no party writes stay as they are. -/
theorem get?_takingAll_of_not_mem {qs : List ι} {n : String} (h : ∀ q ∈ qs, n ∉ names q) :
    get? (takingAll names d qs document) n = get? document n := by
  induction qs generalizing document with
  | nil => rfl
  | cons q qs ih =>
    refine (ih fun r hr => h r (List.mem_cons_of_mem _ hr)).trans ?_
    rw [get?_taking, if_neg (h q List.mem_cons_self)]

omit [DecidableEq ι] in
/-- Names that some party writes are bound as in the other document. -/
theorem get?_takingAll_of_mem {qs : List ι} {q : ι} {n : String} (hq : q ∈ qs)
    (hn : n ∈ names q) : get? (takingAll names d qs document) n = get? d n := by
  induction qs generalizing document q with
  | nil => cases hq
  | cons r qs ih =>
    by_cases hothers : ∃ r ∈ qs, n ∈ names r
    · obtain ⟨r', hmem, hn'⟩ := hothers
      exact ih hmem hn'
    · -- The first party is the last one to write the name.
      have hfirst : q = r :=
        (List.mem_cons.mp hq).resolve_right fun hrest => hothers ⟨q, hrest, hn⟩
      refine (get?_takingAll_of_not_mem fun r' hr' hn' => hothers ⟨r', hr', hn'⟩).trans ?_
      rw [get?_taking, if_pos (hfirst ▸ hn)]

/-- **Several parties get their entries of a document on disk.** -/
theorem At.takeAll (hfaithful : Digest.Faithful δ) (hd : Sorted d) {qs : List ι}
    (hqs : ∀ q ∈ qs, names q ≠ []) (h : At path x document (some document.serialize) ps)
    (hdocument : Sorted document) :
    ∃ moves : List (Move ι Memory), (∀ m ∈ moves, m.Harmless) ∧
      At path x (takingAll names d qs document) (some (takingAll names d qs document).serialize)
        (ps.run names 0 moves) ∧
      ∀ p, (ps.run names 0 moves).finished p
        = if p ∈ qs then some fun n => get? d n else ps.finished p := by
  induction qs generalizing document ps with
  | nil =>
    refine ⟨[], fun m hm => absurd hm List.not_mem_nil, h, fun p => ?_⟩
    exact (if_neg List.not_mem_nil).symm
  | cons q qs ih =>
    obtain ⟨moves, hmoves, hat, hfinished⟩ :=
      h.take hfaithful hdocument hd (Or.inl rfl) (hqs q List.mem_cons_self)
    obtain ⟨moves', hmoves', hat', hfinished'⟩ :=
      ih (fun r hr => hqs r (List.mem_cons_of_mem _ hr)) hat (sorted_taking _ d hdocument)
    refine ⟨moves ++ moves', ?_, ?_, ?_⟩
    · intro m hm
      exact (List.mem_append.mp hm).elim (hmoves m) (hmoves' m)
    · rw [run_append]
      exact hat'
    · intro p
      rw [run_append, hfinished', hfinished]
      by_cases hp : p ∈ qs
      · rw [if_pos hp, if_pos (List.mem_cons_of_mem _ hp)]
      · rw [if_neg hp]
        by_cases hpq : p = q
        · rw [if_pos hpq, if_pos (hpq ▸ List.mem_cons_self)]
        · rw [if_neg hpq, if_neg fun hmem => (List.mem_cons.mp hmem).elim hpq hp]

/-! ## 4. Back to the initial bytes -/

/-- One storage over a store in memory that holds one unit and refuses
nothing. -/
def solitary (path : Path) (content : Option Bytes) : Vault Memory δ :=
  { backing := { files := content.elim [] fun bytes => [(path.location, bytes)] }
    storages := [{ unit := path, template := path.text }] }

omit [DecidableEq δ] [Digest δ] in
theorem contents_solitary (path : Path) (content : Option Bytes) :
    (solitary path content : Vault Memory δ).contents path.location = content := by
  cases content with
  | none => rfl
  | some bytes => exact if_pos rfl

omit [DecidableEq δ] in
theorem load_solitary {loaded : Snapshot δ}
    (hread : Snapshot.ofContent path content = .ok loaded) :
    ((solitary path content : Vault Memory δ).load 0).1 = .ok () := by
  have hsnapshot : (solitary path content : Vault Memory δ).readSnapshot path = .ok loaded := by
    show Snapshot.ofContent path
      ((solitary path content : Vault Memory δ).contents path.location) = _
    rw [contents_solitary]
    exact hread
  rw [Vault.load_outcome]
  show (Vault.readSnapshot (solitary path content) path).map (fun _ => ()) = _
  rw [hsnapshot]
  rfl

/-- The parties that write a name of either of two documents. -/
noncomputable def writersOf (names : ι → List String) (d e : Document) : List ι :=
  open Classical in
  (Bindings.keys d ++ Bindings.keys e).filterMap fun n =>
    if h : ∃ q, n ∈ names q then some h.choose else none

omit [DecidableEq ι] in
theorem names_of_mem_writersOf {e : Document} {q : ι} (h : q ∈ writersOf names d e) :
    names q ≠ [] := by
  obtain ⟨n, _, hq⟩ := List.mem_filterMap.mp h
  split at hq
  · rename_i hn
    rw [← Option.some.inj hq]
    exact List.ne_nil_of_mem hn.choose_spec
  · cases hq

omit [DecidableEq ι] in
/-- A name whose party is not among them is bound in neither document. -/
theorem get?_of_not_mem_writersOf (hdisjoint : ∀ p q n, n ∈ names p → n ∈ names q → p = q)
    {e : Document} {q : ι} {n : String} (hn : n ∈ names q) (h : q ∉ writersOf names d e) :
    get? d n = none ∧ get? e n = none := by
  -- The writer that would be listed for the name is its only one.
  have hkeys : n ∉ Bindings.keys d ++ Bindings.keys e := by
    intro hmem
    refine h (List.mem_filterMap.mpr ⟨n, hmem, ?_⟩)
    have hex : ∃ q, n ∈ names q := ⟨q, hn⟩
    rw [dif_pos hex, hdisjoint _ _ n hex.choose_spec hn]
  rw [List.mem_append, not_or] at hkeys
  refine ⟨Bindings.get?_eq_none fun entry hentry hkey => hkeys.1 ?_,
    Bindings.get?_eq_none fun entry hentry hkey => hkeys.2 ?_⟩
  · exact hkey ▸ List.mem_map_of_mem hentry
  · exact hkey ▸ List.mem_map_of_mem hentry

/-- **A party has staged, and all others write a document whose text the unit
had at first**: the bytes on disk are those from the beginning. -/
theorem At.back (hfaithful : Digest.Faithful δ)
    (hdisjoint : ∀ p q n, n ∈ names p → n ∈ names q → p = q) (hdocument : Sorted document)
    (hd : Sorted d) (hagrees : (origin names content document).Agrees d) {p : ι}
    (hp : names p ≠ []) (h : At path x document (some d.serialize) ps) :
    ∃ moves : List (Move ι Memory), (∀ m ∈ moves, m.Harmless) ∧
      At path x d (some d.serialize) (ps.run names 0 moves) ∧
      ∀ q, (ps.run names 0 moves).finished q
        = if q ∈ p :: writersOf names d document then some fun n => get? d n
          else ps.finished q := by
  obtain ⟨moves, hmoves, hat, hfinished⟩ := h.take hfaithful hdocument hd (Or.inr rfl) hp
  have hwriters : ∀ q ∈ writersOf names d document, names q ≠ [] :=
    fun q hq => names_of_mem_writersOf hq
  obtain ⟨moves', hmoves', hat', hfinished'⟩ :=
    hat.takeAll hfaithful hd hwriters (sorted_taking (names p) d hdocument)
  -- Every name that is bound on either side has been taken over, or has no writer.
  have hall : takingAll names d (writersOf names d document) (taking (names p) d document) = d := by
    refine Bindings.Sorted.ext (sorted_takingAll _ (sorted_taking _ d hdocument)) hd fun n => ?_
    by_cases hn : ∃ q ∈ writersOf names d document, n ∈ names q
    · obtain ⟨q, hmem, hn'⟩ := hn
      exact get?_takingAll_of_mem hmem hn'
    · rw [get?_takingAll_of_not_mem fun q hq hn' => hn ⟨q, hq, hn'⟩, get?_taking]
      split
      · rfl
      · by_cases howned : ∃ q, n ∈ names q
        · obtain ⟨q, hq⟩ := howned
          have hnone := get?_of_not_mem_writersOf hdisjoint (d := d) (e := document) hq
            fun hmem => hn ⟨q, hmem, hq⟩
          rw [hnone.1, hnone.2]
        · exact (hagrees n howned).symm
  rw [hall] at hat'
  refine ⟨moves ++ moves', ?_, ?_, ?_⟩
  · intro m hm
    exact (List.mem_append.mp hm).elim (hmoves m) (hmoves' m)
  · rw [run_append]
    exact hat'
  · intro q
    rw [run_append, hfinished', hfinished]
    by_cases hmem : q ∈ writersOf names d document
    · rw [if_pos hmem, if_pos (List.mem_cons_of_mem _ hmem)]
    · rw [if_neg hmem]
      by_cases hqp : q = p
      · rw [if_pos hqp, if_pos (hqp ▸ List.mem_cons_self)]
      · rw [if_neg hqp, if_neg fun hq => (List.mem_cons.mp hq).elim hqp hmem]

omit [DecidableEq ι] in
/-- **A party stages on a unit that has just been loaded**: its write is under
way, and nothing is finished. -/
theorem At.first {loaded : Snapshot δ} (hread : Snapshot.ofContent path content = .ok loaded)
    {p : ι} {value : String → Option Json}
    (hstage : loaded.stage (statesOf (names p) value)
      = some (loaded.draft (statesOf (names p) value))) :
    let first : Parties ι Memory δ := start (solitary path content) 0
    At path ⟨p, value, ⟨0, path, loaded.draft (statesOf (names p) value)⟩⟩ loaded.document content
        (first.stage names 0 p value) ∧
      ∀ q, (first.stage names 0 p value).finished q = none := by
  intro first
  have hstart := storage?_start (s := { unit := path, template := path.text }) rfl
    (contents_solitary path content) (load_solitary hread) hread
  have hbacking := Vault.load_backing (solitary path content : Vault Memory δ) 0
  have hfirst : first.stage names 0 p value
      = { first with
          outstanding := [⟨p, value, ⟨0, path, loaded.draft (statesOf (names p) value)⟩⟩] } := by
    unfold Parties.stage Vault.stage
    rw [show first.vault.storage? 0 = _ from hstart]
    simp only [hstage]
    rfl
  rw [hfirst]
  refine ⟨⟨⟨_, hstart, rfl, rfl, (Snapshot.describes_ofContent hread).hash⟩, ?_,
    congrArg Memory.readOnly hbacking, rfl⟩, fun q => rfl⟩
  rw [Vault.contents]
  exact (congrArg (LawfulBacking.contents · path.location) hbacking).trans
    (contents_solitary path content)

omit [DecidableEq δ] [Digest δ] in
/-- What a party should find of its names, when all parties with an entry on
either side have written another document. -/
theorem get?_of_finished (hdisjoint : ∀ p q n, n ∈ names p → n ∈ names q → p = q) {p q : ι}
    {n : String} (hq : n ∈ names q)
    (hfinished : ∀ q, ps.finished q
      = if q ∈ p :: writersOf names d document then some fun n => get? d n else none) :
    ps.due document q n = get? d n := by
  rw [due, hfinished]
  by_cases hmem : q ∈ p :: writersOf names d document
  · rw [if_pos hmem]
    rfl
  · obtain ⟨hd, hdocument⟩ := get?_of_not_mem_writersOf hdisjoint hq
      fun h => hmem (List.mem_cons_of_mem _ h)
    rw [if_neg hmem, hd]
    exact hdocument

/-- **An initial content that cannot be told from its text gets lost.** If
nothing is ever lost, whatever the parties do, then what was read can be told
from its text. -/
theorem legible_of_nothingLost (hfaithful : Digest.Faithful δ)
    (hdisjoint : ∀ p q n, n ∈ names p → n ∈ names q → p = q) {loaded : Snapshot δ}
    (hread : Snapshot.ofContent path content = .ok loaded)
    (h : ∀ moves : List (Move ι Memory), (∀ m ∈ moves, m.Harmless) →
      NothingLost names 0 path.location content loaded.document
        ((start (solitary path content : Vault Memory δ) 0).run names 0 moves)) {p : ι}
    (hp : names p ≠ []) :
    (origin names content loaded.document).Legible (· ∈ names p) := by
  intro d hd htext hagrees
  obtain rfl : content = some d.serialize := htext
  have hloaded := Snapshot.describes_ofContent hread
  -- The party stages a value that is neither there nor going to be there.
  obtain ⟨m, hm⟩ := List.exists_mem_of_ne_nil _ hp
  obtain ⟨v, hplain, hthere, hgoal⟩ := Document.exists_plain (get? loaded.document m) (get? d m)
  let value : String → Option Json := fun _ => some v
  have hstates := sorted_statesOf (names p) value
  have hvalue := get?_statesOf (names p) value
  have hstaged : Sorted (loaded.document.merge (statesOf (names p) value)) :=
    Document.sorted_merge hloaded.sorted _
  have hnew : some d.serialize
      ≠ some (loaded.document.merge (statesOf (names p) value)).serialize := by
    intro hcontent
    have halike := (Document.serialize_eq_iff hd hstaged).mp (Option.some.inj hcontent) m
    rw [Document.get?_merge hstates, hvalue, if_pos hm] at halike
    exact hgoal halike.symm
  have hstage := stage_of_differs hfaithful hloaded.sorted hstates hloaded.hash
    ((hvalue m).trans (if_pos hm)) (Document.not_same_of_plain hplain hthere) hnew
  -- The others bring the bytes back, and then the party finishes.
  obtain ⟨hat, hnothing⟩ := At.first hread hstage
  obtain ⟨moves, hmoves, hback, hfinished⟩ :=
    hat.back hfaithful hdisjoint hloaded.sorted hd hagrees hp
  obtain ⟨hcontents, hfinished'⟩ := hback.finish rfl rfl hloaded.hash
  have hharmless : ∀ m ∈ [.stage p value] ++ moves ++ [.finish 0], Move.Harmless m := by
    intro m hm
    simp only [List.mem_append, List.mem_singleton] at hm
    rcases hm with (rfl | hm) | rfl
    · exact trivial
    · exact hmoves m hm
    · exact trivial
  obtain ⟨_, _, e, he, hholds, hmeets, hkept⟩ := h _ hharmless
  rw [run_append, run_append] at hholds hmeets
  have halike : e.WrittenAlike (loaded.document.merge (statesOf (names p) value)) := by
    rcases hholds with hwritten | ⟨hcontent, _⟩
    · exact (Document.serialize_eq_iff he hstaged).mp
        (Option.some.inj (hcontents.symm.trans hwritten)).symm
    · exact absurd (hcontent.symm.trans hcontents) hnew
  -- What is on disk says of the others what `d` says, in the text of what was read.
  have hentries := Document.get?_merge_entriesAt hstates loaded.document e
  refine ⟨e.merge (loaded.document.entriesAt (statesOf (names p) value)),
    Document.sorted_merge he _, ?_, ?_, ?_⟩
  · refine Document.writtenAlike_merge_entriesAt hstates fun n hnone => ?_
    rw [halike n, Document.get?_merge hstates, hnone, Option.getD_none]
  · intro n hn
    rw [hentries, hvalue, if_neg fun hmem => hn ⟨p, hmem⟩]
    exact hkept n fun q hq => hn ⟨q, hq⟩
  · rintro n ⟨q, hq⟩ hnot
    have hqp : q ≠ p := fun hqp => hnot (hqp ▸ hq)
    simp only [hnothing] at hfinished
    have hdue := get?_of_finished hdisjoint hq hfinished
    have hsame := hmeets q n hq
    rw [hentries, hvalue, if_neg hnot, ← hdue, due, ← (hfinished' q).trans (if_neg hqp)]
    exact hsame

/-! ## 5. When nothing is lost -/

/-- **Nothing is ever lost exactly when the initial content can be told from
its text.** On the left stand every store that keeps its units apart, every
storage loaded from that content, and every course of events, with any writes
refused; on the right, for each party that writes anything, whether the entries
of the others can be told. -/
theorem nothing_lost_iff (hfaithful : Digest.Faithful δ)
    (hdisjoint : ∀ p q n, n ∈ names p → n ∈ names q → p = q) {loaded : Snapshot δ}
    (hread : Snapshot.ofContent path content = .ok loaded) :
    (∀ (β : Type) [Backing β] [LawfulBacking β] (v : Vault β δ) (id : StorageId) (s : Storage δ),
      v.storage? id = some s → s.unit = path → v.contents path.location = content →
      (v.load id).1 = .ok () → ∀ moves : List (Move ι β), (∀ m ∈ moves, m.Harmless) →
        NothingLost names id path.location content loaded.document
          ((start v id).run names id moves)) ↔
      ∀ p, names p ≠ [] → (origin names content loaded.document).Legible (· ∈ names p) := by
  constructor
  · intro h p hp
    refine legible_of_nothingLost hfaithful hdisjoint hread (fun moves hmoves => ?_) hp
    exact h Memory (solitary path content) 0 _ rfl rfl (contents_solitary path content)
      (load_solitary hread) moves hmoves
  · intro hlegible β _ _ v id s hs hunit hcontent hok moves hmoves
    subst hunit
    have habsent : content = none → loaded.document = [] := by
      intro hnone
      rw [hnone] at hread
      rw [← Except.ok.inj hread]
    have hstart : Tracked names id s.unit (origin names content loaded.document) false
        (get? loaded.document) (start v id) := Tracked.start hs hcontent hok hread
    obtain ⟨started, expected, htracked⟩ :=
      hstart.run rfl habsent hfaithful hdisjoint hlegible hmoves
    exact htracked.nothingLost

/-- One party for the name `a`, and one for the name `c`. -/
def twoNames (first : Bool) : List String := if first then ["a"] else ["c"]

theorem twoNames_disjoint (p q : Bool) (n : String) (hp : n ∈ twoNames p) (hq : n ∈ twoNames q) :
    p = q := by
  cases p <;> cases q <;> simp_all [twoNames]

/-- A unit that is not there at first cannot be mistaken for anything. Two
parties stage, and finish in the other order. -/
theorem nothing_lost_of_absent :
    NothingLost twoNames 0 (Path.location ⟨"/u"⟩) none []
      ((start (solitary ⟨"/u"⟩ none : Vault Memory Bytes) 0).run twoNames 0
        [.stage true fun _ => some (.integer 1), .stage false fun _ => some (.integer 2),
          .finish 1, .finish 0]) := by
  have hread : Snapshot.ofContent ⟨"/u"⟩ none = .ok ({} : Snapshot Bytes) := rfl
  refine (nothing_lost_iff Digest.faithful_bytes twoNames_disjoint hread).mpr ?_ Memory _ 0 _ rfl
    rfl rfl rfl _ ?_
  · intro p _
    exact (Origin.Plain.of_absent rfl).legible Bindings.sorted_nil _
  · intro m hm
    simp only [List.mem_cons, List.not_mem_nil, or_false] at hm
    rcases hm with rfl | rfl | rfl | rfl <;> exact trivial

/-! ## 6. Bytes that come back -/

/-- A double that is written as `8e-23`. -/
def written : Binary64 := ⟨false, 6805647338418769, -126⟩

/-- The double that `8e-23` is read as. -/
def readBack : Binary64 := ⟨false, 6805647338418770, -126⟩

/-- The content of a unit that binds `a` to the first of them. -/
def returning : Bytes := Document.serialize [("a", .float written)]

/-- The second party stages; the first one writes something else and then that
content again; the second one finishes. -/
def thereAndBack : Parties Bool Memory Bytes :=
  (start (solitary ⟨"/u.json"⟩ (some returning)) 0).run twoNames 0
    [.stage false fun _ => some (.integer 1), .stage true fun _ => some (.integer 2), .finish 1,
      .stage true fun _ => some (.float written), .finish 1, .finish 0]

/-- **An update that is lost.** The first party has last finished the double
written as `8e-23`, and the unit ends up with the one that this text is read
as. -/
theorem lost_when_bytes_return :
    ¬ NothingLost twoNames 0 (Path.location ⟨"/u.json"⟩) (some returning)
        [("a", .float readBack)] thereAndBack := by
  intro h
  obtain ⟨_, _, e, he, hholds, hmeets, _⟩ := h
  let d : Document := [("a", .float readBack), ("c", .integer 1)]
  have hnow : thereAndBack.vault.contents (Path.location ⟨"/u.json"⟩) = some d.serialize := by
    decide +kernel
  have hnew : some d.serialize ≠ some returning := by decide +kernel
  have hd : Sorted d := by
    refine List.pairwise_cons.mpr ⟨fun x hx => ?_, List.pairwise_singleton _ _⟩
    rw [List.mem_singleton.mp hx]
    decide
  have htext : e.WrittenAlike d := by
    rcases hholds with hwritten | ⟨hcontent, _⟩
    · exact (Document.serialize_eq_iff he hd).mp (Option.some.inj (hnow ▸ hwritten)).symm
    · exact absurd (hnow ▸ hcontent) hnew
  have hsame := Json.sameOption_symm (hmeets true "a" List.mem_cons_self)
  refine Document.not_same_of_plain (Json.plain_float (y := written) (by decide)) ?_ hsame
  rw [htext "a"]
  show some (Json.writeFloat written) ≠ some (Json.writeFloat readBack)
  decide +kernel

end Parties

end ScopedState
