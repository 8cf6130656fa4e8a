/-
`Proofs/Storage/Merging.lean` -- many writes of one unit as one.

Several scopes stage their states for a unit on one and the same snapshot, and
their writes are carried out one after the other, with writes of other units in
between. In the end the unit says what it would say had all states been merged
at once: for each name what the last state merged for it says, and what it said
before if there is none (`overwriteAll`).

The states of different scopes are about different names, and a scope may take
part more than once with the same states; in either case two states for one
name are the same (`Consistent`). Then neither the order of the writes matters
nor how often each is carried out.
-/
import ScopedState.Proofs.Session.Commit
import ScopedState.Proofs.Storage.Tracking
set_option autoImplicit false

namespace ScopedState

open Bindings (Sorted get?)

/-! ## 1. Merging many states -/

/-- What is expected after writes of many states. -/
def overwriteAll (l : List States) (expected : String → Option Json) : String → Option Json :=
  l.foldl (fun expected states => overwrite states expected) expected

/-- The document with many states merged in, one after the other. -/
def Document.mergeAll (d : Document) (l : List States) : Document := l.foldl Document.merge d

/-- Two states for one name are the same. -/
def Consistent (l : List States) : Prop :=
  ∀ s ∈ l, ∀ t ∈ l, ∀ n x y, get? s n = some x → get? t n = some y → x = y

variable {l : List States} {expected : String → Option Json}

theorem Document.sorted_mergeAll {d : Document} (hd : Sorted d) (l : List States) :
    Sorted (d.mergeAll l) := by
  induction l generalizing d with
  | nil => exact hd
  | cons states rest ih => exact ih (Document.sorted_merge hd states)

/-- **Merging many states, name by name.** -/
theorem Document.get?_mergeAll (hl : ∀ states ∈ l, Sorted states) (d : Document) (n : String) :
    get? (d.mergeAll l) n = overwriteAll l (get? d) n := by
  suffices h : ∀ (d : Document) (f : String → Option Json), get? d = f →
      get? (d.mergeAll l) n = overwriteAll l f n from h d _ rfl
  induction l with
  | nil =>
    intro d f hf
    exact congrFun hf n
  | cons states rest ih =>
    intro d f hf
    refine ih (fun s hs => hl s (List.mem_cons_of_mem _ hs)) _ _ ?_
    funext m
    rw [Document.get?_merge (hl states List.mem_cons_self), hf]
    rfl

theorem overwriteAll_append (l l' : List States) (expected : String → Option Json) :
    overwriteAll (l ++ l') expected = overwriteAll l' (overwriteAll l expected) :=
  List.foldl_append

/-- A name that is not written keeps what is expected of it. -/
theorem overwriteAll_of_none {n : String} (h : ∀ states ∈ l, get? states n = none) :
    overwriteAll l expected n = expected n := by
  induction l generalizing expected with
  | nil => rfl
  | cons states rest ih =>
    have hrest : overwriteAll rest (overwrite states expected) n = overwrite states expected n :=
      ih fun s hs => h s (List.mem_cons_of_mem _ hs)
    refine hrest.trans ?_
    rw [overwrite, h states List.mem_cons_self, Option.getD_none]

/-- **A name that is written consistently** gets the one state that there is for
it. -/
theorem overwriteAll_of_mem (hl : Consistent l) {states : States} (hstates : states ∈ l)
    {n : String} {x : Option Json} (hx : get? states n = some x) :
    overwriteAll l expected n = x := by
  induction l generalizing expected states x with
  | nil => cases hstates
  | cons first rest ih =>
    have hrest : Consistent rest := fun s hs t ht =>
      hl s (List.mem_cons_of_mem _ hs) t (List.mem_cons_of_mem _ ht)
    by_cases hlater : ∃ s ∈ rest, ∃ y, get? s n = some y
    · -- Some later states are about the name too, and say the same.
      obtain ⟨s, hs, y, hy⟩ := hlater
      rw [hl states hstates s (List.mem_cons_of_mem _ hs) n x y hx hy]
      exact ih hrest hs hy
    · have hnone : ∀ s ∈ rest, get? s n = none := by
        intro s hs
        cases hsn : get? s n with
        | none => rfl
        | some y => exact absurd ⟨s, hs, y, hsn⟩ hlater
      rcases List.mem_cons.mp hstates with rfl | hmem
      · have hkept : overwriteAll rest (overwrite states expected) n
            = overwrite states expected n := overwriteAll_of_none hnone
        refine hkept.trans ?_
        rw [overwrite, hx, Option.getD_some]
      · rw [hnone states hmem] at hx
        cases hx

/-- **Consistent writes of the same states** come to the same, in any order. -/
theorem overwriteAll_congr {l' : List States} (hl : Consistent l) (hsub : ∀ s ∈ l', s ∈ l)
    {n : String} (hn : ∀ s ∈ l, ∀ x, get? s n = some x → s ∈ l') :
    overwriteAll l' expected n = overwriteAll l expected n := by
  have hl' : Consistent l' := fun s hs t ht => hl s (hsub s hs) t (hsub t ht)
  by_cases hsome : ∃ s ∈ l, ∃ x, get? s n = some x
  · obtain ⟨s, hs, x, hx⟩ := hsome
    rw [overwriteAll_of_mem hl hs hx, overwriteAll_of_mem hl' (hn s hs x hx) hx]
  · have hnone : ∀ s ∈ l, get? s n = none := by
      intro s hs
      cases hsn : get? s n with
      | none => rfl
      | some x => exact absurd ⟨s, hs, x, hsn⟩ hsome
    rw [overwriteAll_of_none hnone, overwriteAll_of_none fun s hs => hnone s (hsub s hs)]

/-! ## 2. Carrying many writes out -/

/-- The states of the writes for one storage. -/
def statesFor {δ : Type} (k : StorageId) (ws : List (String × StagedWrite δ)) : List States :=
  (ws.filter fun w => w.2.storage = k).map fun w => w.2.draft.states

theorem statesFor_cons {δ : Type} (k : StorageId) (w : String × StagedWrite δ)
    (ws : List (String × StagedWrite δ)) :
    statesFor k (w :: ws)
      = if w.2.storage = k then w.2.draft.states :: statesFor k ws else statesFor k ws := by
  rw [statesFor, List.filter_cons]
  by_cases hk : w.2.storage = k
  · rw [if_pos (decide_eq_true hk), if_pos hk]
    rfl
  · rw [if_neg fun h => hk (of_decide_eq_true h), if_neg hk]
    rfl

section Turns

variable {β δ : Type} [Backing β] [LawfulBacking β] [DecidableEq δ] [Digest δ] {o : Origin}
  {started : Bool} {content : Option Bytes}

/-- **States that need not be written keep track**, however many there are. -/
theorem Tracks.nothing_due_all {s : Snapshot δ} (hfaithful : Digest.Faithful δ)
    (h : Tracks o started expected content s)
    (htext : ∀ d : Document, Sorted d → content = some d.serialize → o.Agrees d →
      d.serialize = s.document.serialize)
    (hl : ∀ states ∈ l, Sorted states ∧ (∀ n, (get? states n).isSome = true → o.owned n) ∧
      s.stage states = none) :
    Tracks o started (overwriteAll l expected) content s := by
  induction l generalizing expected with
  | nil => exact h
  | cons states rest ih =>
    obtain ⟨hstates, howned, hnone⟩ := hl states List.mem_cons_self
    exact ih (h.nothing_due hstates howned hfaithful htext hnone)
      fun s hs => hl s (List.mem_cons_of_mem _ hs)

/-- **An induction over many writes**, as far as one unit goes. The writes for its
storage are about the unit, the others about other locations, and the store
takes all of them. What is claimed of the unit after some states has to outlast
a write that is dropped and one that is carried out. -/
theorem Turn.perform_induction (mine : Draft δ → Prop)
    (claim : List States → Option Bytes → Snapshot δ → Prop)
    (hdrop : ∀ l content s d, claim l content s → mine d → s.rebase d = none →
      claim (l ++ [d.states]) content s)
    (hwrite : ∀ l content s d d', claim l content s → mine d → s.rebase d = some d' →
      claim (l ++ [d.states]) (some d'.bytes) (Snapshot.ofDraft d'))
    {ws : List (String × StagedWrite δ)} {v : Vault β δ} {k : StorageId} {s : Storage δ}
    (hs : v.storage? k = some s)
    (hws : ∀ w ∈ ws, (w.2.storage = k → w.2.unit = s.unit ∧ mine w.2.draft) ∧
      (w.2.storage ≠ k → w.2.unit.location ≠ s.unit.location))
    (hok : ∀ t ∈ Turn.all ws v, t.answer = .ok ())
    (h : claim l (v.contents s.unit.location) s.snapshot) :
    ∃ s', (Turn.perform ws v).storage? k = some s' ∧ s'.unit = s.unit ∧
      claim (l ++ statesFor k ws) ((Turn.perform ws v).contents s.unit.location) s'.snapshot := by
  induction ws generalizing v s l with
  | nil =>
    have hnone : l ++ statesFor k ([] : List (String × StagedWrite δ)) = l := List.append_nil l
    rw [hnone]
    exact ⟨s, hs, rfl, h⟩
  | cons w ws ih =>
    obtain ⟨scope, staged⟩ := w
    obtain ⟨hmine, hother⟩ := hws (scope, staged) List.mem_cons_self
    have hrest := fun x hx => hws x (List.mem_cons_of_mem _ hx)
    have hokrest : ∀ t ∈ Turn.all ws (v.carryOut staged).2, t.answer = .ok () :=
      fun t ht => hok t (List.mem_cons_of_mem _ ht)
    have hanswer : (v.carryOut staged).1 = .ok () :=
      (Turn.carryOut_outcome ⟨scope, staged, v⟩).trans (hok _ List.mem_cons_self)
    by_cases hk : staged.storage = k
    · obtain ⟨hunit, hdraft⟩ := hmine hk
      rw [statesFor_cons, if_pos hk, List.append_cons]
      subst hk
      -- A refused write would have shown in its answer.
      rcases Vault.carryOut_unit hs hunit with
        ⟨hnone, hout⟩ | ⟨draft, hdue, _, hstorage, hcontents⟩ | ⟨⟨e, he⟩, _, _⟩
      · -- Nothing is left to write.
        rw [hout] at hokrest
        have hperform : Turn.perform ((scope, staged) :: ws) v = Turn.perform ws v := by
          show Turn.perform ws (v.carryOut staged).2 = _
          rw [hout]
        rw [hperform]
        exact ih hs hrest hokrest (hdrop _ _ _ _ h hdraft hnone)
      · -- The write is on disk.
        have hwritten := hwrite _ _ _ _ _ h hdraft hdue
        rw [← hcontents] at hwritten
        have hend := ih hstorage hrest hokrest hwritten
        exact hend
      · rw [he] at hanswer
        cases hanswer
    · rw [statesFor_cons, if_neg hk]
      -- The write is about another unit.
      have hcontents := v.contents_carryOut_other (hother hk)
      rw [← hcontents] at h
      exact ih ((v.storage?_carryOut_other hk).trans hs) hrest hokrest h

/-- **Many writes keep track of one unit.** Those of the unit were staged on some
snapshot of it, those of other units are about other locations, and the store
takes all of them. -/
theorem Tracks.perform {ws : List (String × StagedWrite δ)} {v : Vault β δ} {k : StorageId}
    {s : Storage δ} (hfaithful : Digest.Faithful δ) (hlegible : ∀ mine, o.Legible mine)
    (hs : v.storage? k = some s)
    (h : Tracks o started expected (v.contents s.unit.location) s.snapshot)
    (hws : ∀ w ∈ ws, (w.2.storage = k → w.2.unit = s.unit ∧ w.2.draft.From o started) ∧
      (w.2.storage ≠ k → w.2.unit.location ≠ s.unit.location))
    (hok : ∀ t ∈ Turn.all ws v, t.answer = .ok ()) :
    ∃ started' s', (Turn.perform ws v).storage? k = some s' ∧ s'.unit = s.unit ∧
      Tracks o started' (overwriteAll (statesFor k ws) expected)
        ((Turn.perform ws v).contents s.unit.location) s'.snapshot := by
  -- A write that was staged in the beginning was staged at some time later on, too.
  have hfrom : ∀ {started'} {d : Draft δ}, started' = started ∨ started' = true →
      d.From o started → d.From o started' := by
    rintro started' d (rfl | rfl) hd
    · exact hd
    · exact hd.mono
  have hnext : ∀ (l : List States) (states : States),
      overwriteAll (l ++ [states]) expected = overwrite states (overwriteAll l expected) :=
    fun l states => overwriteAll_append l [states] expected
  obtain ⟨s', hs', hunit, started', _, htracks⟩ := Turn.perform_induction
    (fun d => d.From o started)
    (fun l content s => ∃ started', (started' = started ∨ started' = true) ∧
      Tracks o started' (overwriteAll l expected) content s)
    (fun l content s d ⟨started', hstarted, htracks⟩ hd hnone => by
      rw [hnext]
      exact ⟨started', hstarted, htracks.drop hfaithful (hfrom hstarted hd) hnone⟩)
    (fun l content s d d' ⟨started', hstarted, htracks⟩ hd hdue => by
      rw [hnext]
      exact ⟨true, Or.inr rfl, htracks.write hfaithful (hfrom hstarted hd) (hlegible fun _ => False)
        (fun _ hn => hn.elim) hdue⟩)
    hs hws hok (l := []) ⟨started, Or.inl rfl, h⟩
  exact ⟨started', s', hs', hunit, htracks⟩

end Turns

end ScopedState
