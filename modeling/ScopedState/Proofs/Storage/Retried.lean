/-
`Proofs/Storage/Retried.lean` -- writes that are refused and made again.

Several writers stage their states for a unit on one snapshot, each for names of
its own, and the store takes some of the writes and refuses others. In any case
what is remembered in the end is the first document with the states of those
writes merged in that were taken, in the order in which they were (`Taken`). So
two courses of writes from one snapshot differ in which states they have taken.

They need not have taken the same states for nothing to be left to write: states
may be there without a write, because the unit has their text. But then they had
that text from the start, at the names of their writer, as nobody else writes
these. So the two documents are written alike (`Taken.alike`), and it makes no
difference whether some writes were refused first and made again later.
-/
import ScopedState.Proofs.Storage.Settling
set_option autoImplicit false

namespace ScopedState

open Bindings (Sorted get?)

/-! ## 1. States of different writers -/

/-- Two of some states are about different names, or they are the same. -/
def Unshared (all : List States) : Prop :=
  ∀ s ∈ all, ∀ t ∈ all, ∀ n, (get? s n).isSome = true → (get? t n).isSome = true → s = t

variable {all l l' : List States} {d : Document} {states : States} {n : String}

theorem Unshared.consistent (h : Unshared all) : Consistent all := by
  intro s hs t ht n x y hx hy
  have hsame := h s hs t ht n (by rw [hx]; rfl) (by rw [hy]; rfl)
  rw [hsame, hy] at hx
  exact (Option.some.inj hx).symm

namespace Document

/-- The states have the texts of the entries of their names. -/
def HasTexts (d : Document) (states : States) : Prop :=
  d.Meets (fun x y => entryText x = entryText y) states

theorem mergeAll_append (d : Document) (l l' : List States) :
    d.mergeAll (l ++ l') = (d.mergeAll l).mergeAll l' := List.foldl_append

/-- States that are not merged in leave their names alone, and nobody else has
these. -/
theorem get?_mergeAll_of_not_mem (h : Unshared all) (hsorted : ∀ s ∈ all, Sorted s)
    (hl : ∀ s ∈ l, s ∈ all) (hstates : states ∈ all) (hnot : states ∉ l)
    (hn : (get? states n).isSome = true) : get? (d.mergeAll l) n = get? d n := by
  rw [get?_mergeAll fun s hs => hsorted s (hl s hs)]
  refine overwriteAll_of_none fun s hs => ?_
  cases hx : get? s n with
  | none => rfl
  | some x =>
    have hsame := h states hstates s (hl s hs) n hn (by rw [hx]; rfl)
    exact absurd (hsame ▸ hs) hnot

/-- A name of states that are merged in gets their state. -/
theorem get?_mergeAll_of_mem (h : Unshared all) (hsorted : ∀ s ∈ all, Sorted s)
    (hl : ∀ s ∈ l, s ∈ all) (hstates : states ∈ l) {x : Option Json}
    (hx : get? states n = some x) : get? (d.mergeAll l) n = x := by
  rw [get?_mergeAll fun s hs => hsorted s (hl s hs)]
  exact overwriteAll_of_mem
    (fun s hs t ht => h.consistent s (hl s hs) t (hl t ht)) hstates hx

/-- **Two merges are written alike** when whatever one of them lacks has the texts of
the entries that were there before. -/
theorem writtenAlike_mergeAll (h : Unshared all) (hsorted : ∀ s ∈ all, Sorted s)
    (hl : ∀ s ∈ l, s ∈ all) (hl' : ∀ s ∈ l', s ∈ all)
    (hmissing : ∀ s ∈ l, s ∉ l' → d.HasTexts s) (hmissing' : ∀ s ∈ l', s ∉ l → d.HasTexts s) :
    (d.mergeAll l).WrittenAlike (d.mergeAll l') := by
  intro n
  by_cases hsome : ∃ s ∈ l, ∃ x, get? s n = some x
  · obtain ⟨s, hs, x, hx⟩ := hsome
    rw [get?_mergeAll_of_mem h hsorted hl hs hx]
    by_cases hs' : s ∈ l'
    · rw [get?_mergeAll_of_mem h hsorted hl' hs' hx]
    · rw [get?_mergeAll_of_not_mem h hsorted hl' (hl s hs) hs' (by rw [hx]; rfl)]
      exact hmissing s hs hs' n x hx
  · -- The first merge leaves the name alone.
    have hnone : get? (d.mergeAll l) n = get? d n := by
      rw [get?_mergeAll fun s hs => hsorted s (hl s hs)]
      refine overwriteAll_of_none fun s hs => ?_
      cases hx : get? s n with
      | none => rfl
      | some x => exact absurd ⟨s, hs, x, hx⟩ hsome
    rw [hnone]
    by_cases hsome' : ∃ s ∈ l', ∃ x, get? s n = some x
    · obtain ⟨s, hs, x, hx⟩ := hsome'
      rw [get?_mergeAll_of_mem h hsorted hl' hs hx]
      exact (hmissing' s hs (fun hmem => hsome ⟨s, hmem, x, hx⟩) n x hx).symm
    · rw [get?_mergeAll fun s hs => hsorted s (hl' s hs), overwriteAll_of_none fun s hs => ?_]
      cases hx : get? s n with
      | none => rfl
      | some x => exact absurd ⟨s, hs, x, hx⟩ hsome'

end Document

/-! ## 2. What was taken -/

section Taking

variable {δ : Type} [DecidableEq δ] [Digest δ] {b s s' : Snapshot δ}
  {disk₀ disk disk' : Option Bytes} {taken taken' : List States}

/-- **A course of writes** from a snapshot `b` of a unit with the bytes `disk₀` on disk.
Some of the writes were taken, and what is remembered is the document with their
states merged in. If none was, nothing has changed, and otherwise the text of
the document is on disk. Nobody has got anything to write who had nothing to
begin with. -/
structure Taken (all : List States) (b : Snapshot δ) (disk₀ : Option Bytes)
    (taken : List States) (disk : Option Bytes) (s : Snapshot δ) : Prop where
  document : s.document = b.document.mergeAll taken
  mem : ∀ states ∈ taken, states ∈ all ∧ b.stage states ≠ none
  untouched : taken = [] → disk = disk₀ ∧ s = b
  written : taken ≠ [] → disk = some s.document.serialize ∧
    s.hash = some (Digest.ofBytes s.document.serialize)
  idle : ∀ states ∈ all, b.stage states = none → s.stage states = none

namespace Taken

theorem refl (all : List States) (b : Snapshot δ) (disk : Option Bytes) :
    Taken all b disk [] disk b :=
  ⟨rfl, fun _ h => absurd h List.not_mem_nil, fun _ => ⟨rfl, rfl⟩, fun h => absurd rfl h,
    fun _ _ h => h⟩

/-- **One course after the other.** -/
theorem trans (h : Taken all b disk₀ taken disk s) (h' : Taken all s disk taken' disk' s') :
    Taken all b disk₀ (taken ++ taken') disk' s' := by
  refine ⟨?_, fun states hstates => ?_, fun hnil => ?_, fun hsome => ?_,
    fun states hall hnone => ?_⟩
  · rw [h'.document, h.document, Document.mergeAll_append]
  · rcases List.mem_append.mp hstates with hmem | hmem
    · exact h.mem states hmem
    · -- Whoever had something to write later had something to write before.
      obtain ⟨hall, hdue⟩ := h'.mem states hmem
      exact ⟨hall, fun hnone => hdue (h.idle states hall hnone)⟩
  · obtain ⟨hfirst, hsecond⟩ := List.append_eq_nil_iff.mp hnil
    obtain ⟨hdisk, rfl⟩ := h'.untouched hsecond
    obtain ⟨hdisk₀, rfl⟩ := h.untouched hfirst
    exact ⟨hdisk.trans hdisk₀, rfl⟩
  · by_cases hsecond : taken' = []
    · obtain ⟨rfl, rfl⟩ := h'.untouched hsecond
      rw [hsecond, List.append_nil] at hsome
      exact h.written hsome
    · exact h'.written hsecond
  · exact h'.idle states hall (h.idle states hall hnone)

/-- **States that are there without a write** have had the texts of the entries from
the start. -/
theorem hasTexts (hfaithful : Digest.Faithful δ) (h : Taken all b disk₀ taken disk s)
    (hunshared : Unshared all) (hsorted : ∀ s ∈ all, Sorted s) (hb : Sorted b.document)
    (hredundant : ∀ states, (b.document.merge states).same b.document = true →
      b.Redundant states)
    (hstates : states ∈ all) (hdue : b.stage states ≠ none) (hnot : states ∉ taken)
    (hnone : s.stage states = none) : b.document.HasTexts states := by
  have hwritten := h.written fun hnil => hdue ((h.untouched hnil).2 ▸ hnone)
  have hs : Sorted s.document := by
    rw [h.document]
    exact Document.sorted_mergeAll hb taken
  -- Nobody else writes the names of these states.
  have hsame : ∀ n x, get? states n = some x → get? s.document n = get? b.document n := by
    intro n x hx
    rw [h.document]
    exact Document.get?_mergeAll_of_not_mem hunshared hsorted (fun s hs => (h.mem s hs).1) hstates
      hnot (by rw [hx]; rfl)
  rcases Snapshot.stage_eq_none_iff.mp hnone with ⟨hequal, _⟩ | hbytes
  · -- States that are equal to the entries now were so in the beginning.
    refine absurd (Snapshot.stage_eq_none_iff.mpr (Or.inl (hredundant states ?_))) hdue
    refine (Document.same_merge_iff hb (hsorted states hstates)).mpr fun n x hx => ?_
    have hthere := (Document.same_merge_iff hs (hsorted states hstates)).mp hequal n x hx
    rwa [hsame n x hx] at hthere
  · have htext : (s.document.merge states).serialize = s.document.serialize :=
      hfaithful _ _ (Option.some.inj (hbytes.symm.trans hwritten.2))
    intro n x hx
    have hthere := (Document.serialize_merge_iff hs (hsorted states hstates)).mp htext n x hx
    rwa [hsame n x hx] at hthere

/-- Nothing is taken where nothing has to be written. -/
theorem eq_nil_of_idle (h : Taken all b disk₀ taken disk s)
    (hidle : ∀ states ∈ all, b.stage states = none) : taken = [] := by
  refine List.eq_nil_iff_forall_not_mem.mpr fun states hstates => ?_
  obtain ⟨hall, hdue⟩ := h.mem states hstates
  exact hdue (hidle states hall)

/-- **Two courses with nothing left to write come to the same.** -/
theorem alike (hfaithful : Digest.Faithful δ) (h : Taken all b disk₀ taken disk s)
    (h' : Taken all b disk₀ taken' disk' s') (hunshared : Unshared all)
    (hsorted : ∀ s ∈ all, Sorted s) (hb : Sorted b.document)
    (hredundant : ∀ states, (b.document.merge states).same b.document = true →
      b.Redundant states)
    (hnone : ∀ states ∈ all, s.stage states = none)
    (hnone' : ∀ states ∈ all, s'.stage states = none) :
    disk = disk' ∧ s.hash = s'.hash ∧ s.document.WrittenAlike s'.document := by
  have hmissing : ∀ states ∈ taken, states ∉ taken' → b.document.HasTexts states := by
    intro states hstates hnot
    obtain ⟨hall, hdue⟩ := h.mem states hstates
    exact h'.hasTexts hfaithful hunshared hsorted hb hredundant hall hdue hnot (hnone' states hall)
  have hmissing' : ∀ states ∈ taken', states ∉ taken → b.document.HasTexts states := by
    intro states hstates hnot
    obtain ⟨hall, hdue⟩ := h'.mem states hstates
    exact h.hasTexts hfaithful hunshared hsorted hb hredundant hall hdue hnot (hnone states hall)
  have halike : s.document.WrittenAlike s'.document := by
    rw [h.document, h'.document]
    exact Document.writtenAlike_mergeAll hunshared hsorted (fun s hs => (h.mem s hs).1)
      (fun s hs => (h'.mem s hs).1) hmissing hmissing'
  by_cases hnil : taken = []
  · -- Nothing had to be written, so the other course has taken nothing either.
    obtain ⟨rfl, rfl⟩ := h.untouched hnil
    obtain ⟨rfl, rfl⟩ := h'.untouched (h'.eq_nil_of_idle hnone)
    exact ⟨rfl, rfl, halike⟩
  · have hsome : taken' ≠ [] := by
      intro hnil'
      obtain ⟨rfl, rfl⟩ := h'.untouched hnil'
      exact hnil (h.eq_nil_of_idle hnone')
    have hs : Sorted s.document := by
      rw [h.document]
      exact Document.sorted_mergeAll hb taken
    have hs' : Sorted s'.document := by
      rw [h'.document]
      exact Document.sorted_mergeAll hb taken'
    have htext := (Document.serialize_eq_iff hs hs').mpr halike
    obtain ⟨hdisk, hhash⟩ := h.written hnil
    obtain ⟨hdisk', hhash'⟩ := h'.written hsome
    rw [hdisk, hdisk', hhash, hhash', htext]
    exact ⟨rfl, rfl, halike⟩

end Taken

/-! ## 3. Turns, some of them refused -/

variable {β : Type} [Backing β] [LawfulBacking β] {o : Origin}

/-- **What the writes of one unit preserve, the turns preserve**, whichever of them are
refused. The writes for its storage are about the unit, the others about other
locations. -/
theorem Turn.perform_preserves (mine : Draft δ → Prop) (claim : Option Bytes → Snapshot δ → Prop)
    (hwrite : ∀ disk s d d', claim disk s → mine d → s.rebase d = some d' →
      claim (some d'.bytes) (Snapshot.ofDraft d'))
    {ws : List (String × StagedWrite δ)} {v : Vault β δ} {k : StorageId} {st : Storage δ}
    (hs : v.storage? k = some st)
    (hws : ∀ w ∈ ws, (w.2.storage = k → w.2.unit = st.unit ∧ mine w.2.draft) ∧
      (w.2.storage ≠ k → w.2.unit.location ≠ st.unit.location))
    (h : claim (v.contents st.unit.location) st.snapshot) :
    ∃ st', (Turn.perform ws v).storage? k = some st' ∧ st'.unit = st.unit ∧
      claim ((Turn.perform ws v).contents st.unit.location) st'.snapshot := by
  induction ws generalizing v st with
  | nil => exact ⟨st, hs, rfl, h⟩
  | cons w ws ih =>
    obtain ⟨scope, staged⟩ := w
    obtain ⟨hmine, hother⟩ := hws (scope, staged) List.mem_cons_self
    have hrest := fun x hx => hws x (List.mem_cons_of_mem _ hx)
    show ∃ st', (Turn.perform ws (v.carryOut staged).2).storage? k = some st' ∧ st'.unit = st.unit ∧
      claim ((Turn.perform ws (v.carryOut staged).2).contents st.unit.location) st'.snapshot
    by_cases hk : staged.storage = k
    · obtain ⟨hunit, hdraft⟩ := hmine hk
      subst hk
      rcases Vault.carryOut_unit hs hunit with
        ⟨_, hout⟩ | ⟨draft, hdue, _, hstorage, hcontents⟩ | ⟨_, hstorages, hcontents⟩
      · -- Nothing is left to write.
        rw [hout]
        exact ih hs hrest h
      · have hwritten := hwrite _ _ _ _ h hdraft hdue
        rw [← hcontents] at hwritten
        -- The storage still has its unit.
        have hend := ih hstorage hrest hwritten
        exact hend
      · -- The write is refused, and everything is as before.
        rw [← hcontents] at h
        exact ih ((congrFun hstorages _).trans hs) hrest h
    · have hcontents := v.contents_carryOut_other (hother hk)
      rw [← hcontents] at h
      exact ih ((v.storage?_carryOut_other hk).trans hs) hrest h

/-- A course of writes for a unit, after which whoever had nothing to write when it began
rests. -/
def Underway (o : Origin) (all : List States) (b : Snapshot δ) (disk₀ disk : Option Bytes)
    (s : Snapshot δ) : Prop :=
  ∃ taken, Taken all b disk₀ taken disk s ∧ ∃ started content done,
    Settles o all started done content s ∧
      ∀ states ∈ all, b.stage states = none → states ∈ done

omit [Backing β] [LawfulBacking β] in
/-- **One more write** of those that were staged in the beginning. -/
theorem Underway.write {d d' : Draft δ} (h : Underway o all b disk₀ disk s)
    (hfaithful : Digest.Faithful δ) (hplain : o.Plain)
    (habsent : o.content = none → o.document = []) (hdocument : Sorted o.document)
    (hunshared : Unshared all) (hall : ∀ states ∈ all, Sorted states) (hd : d.Initial o all)
    (hstage : b.stage d.states ≠ none) (hdue : s.rebase d = some d') :
    Underway o all b disk₀ (some d'.bytes) (Snapshot.ofDraft d') := by
  obtain ⟨taken, htaken, started, content, done, hsettles, hidle⟩ := h
  have hsettled := hsettles.write hfaithful hplain hdocument hunshared.consistent hd hdue
  have hkept : ∀ states ∈ all, b.stage states = none → states ∈ done ++ [d.states] :=
    fun states hmem hnone => List.mem_append_left _ (hidle states hmem hnone)
  have hdraft := hsettles.rebase hfaithful hd hdue
  refine ⟨taken ++ [d.states], ?_, true, some d'.bytes, _, hsettled, hkept⟩
  constructor
  case document =>
    rw [Document.mergeAll_append, ← htaken.document, hdraft]
    rfl
  case mem =>
    intro states hstates
    rcases List.mem_append.mp hstates with hmem | hmem
    · exact htaken.mem states hmem
    · rw [List.mem_singleton.mp hmem]
      exact ⟨hd.mem, hstage⟩
  case untouched =>
    intro hnil
    exact absurd (List.append_eq_nil_iff.mp hnil).2 (List.cons_ne_nil _ _)
  case written =>
    intro _
    rw [hdraft]
    exact ⟨rfl, rfl⟩
  case idle =>
    intro states hmem hnone
    exact (hsettled.rests states (hkept states hmem hnone)).stage hsettled.images habsent
      (hall states hmem)

/-- **Whatever the store refuses**, the turns are a course of writes. The writes for the
storage were staged on what it remembered; its unit was plain at the time. -/
theorem Turn.exists_taken {ws : List (String × StagedWrite δ)} {v : Vault β δ} {k : StorageId}
    {st : Storage δ} {content : Option Bytes} (hfaithful : Digest.Faithful δ) (hplain : o.Plain)
    (habsent : o.content = none → o.document = []) (hunshared : Unshared all)
    (hall : ∀ states ∈ all, Sorted states ∧ ∀ n, (get? states n).isSome = true → o.owned n)
    (hs : v.storage? k = some st) (himages : Images o false content st.snapshot)
    (hws : ∀ w ∈ ws, (w.2.storage = k → w.2.unit = st.unit ∧ w.2.draft.Initial o all ∧
        st.snapshot.stage w.2.draft.states ≠ none) ∧
      (w.2.storage ≠ k → w.2.unit.location ≠ st.unit.location)) :
    ∃ st' taken, (Turn.perform ws v).storage? k = some st' ∧ st'.unit = st.unit ∧
      Taken all st.snapshot (v.contents st.unit.location) taken
        ((Turn.perform ws v).contents st.unit.location) st'.snapshot := by
  have hdocument : Sorted o.document := by
    rw [← (himages.fresh rfl).2]
    exact himages.sorted
  -- Those with nothing to write rest before the first turn.
  have hstart : Underway o all st.snapshot (v.contents st.unit.location)
      (v.contents st.unit.location) st.snapshot :=
    ⟨[], Taken.refl _ _ _, false, content, _, settles_start hfaithful hplain himages hall,
      fun states hmem hnone => List.mem_filter.mpr ⟨hmem, Option.isNone_iff_eq_none.mpr hnone⟩⟩
  obtain ⟨st', hs', hunit, taken, htaken, _⟩ := Turn.perform_preserves
    (fun d => d.Initial o all ∧ st.snapshot.stage d.states ≠ none)
    (Underway o all st.snapshot (v.contents st.unit.location))
    (fun _ _ _ _ h hd hdue => h.write hfaithful hplain habsent hdocument hunshared
      (fun states hmem => (hall states hmem).1) hd.1 hd.2 hdue) hs hws hstart
  exact ⟨st', taken, hs', hunit, htaken⟩

end Taking

end ScopedState
