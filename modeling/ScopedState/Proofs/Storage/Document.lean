/-
`Proofs/Storage/Document.lean` -- documents entry by entry.

A document is compared in two ways. Staging asks whether two documents are
equal as JSON values; the digest on disk only tells whether they have the same
text. Neither implies the other: `0.0` and `-0.0` are equal and written
differently, and two values that are not equal may be written alike. Both
questions are settled name by name here, and so is a merge: the merged names
get their states and every other entry stays.

That is all the later modules need to know of documents. In particular a merge
of the same states into two documents of one text gives one text again
(`WrittenAlike.merge`), which is what lets a write be computed again on a
snapshot that is not the one it was staged on.
-/
import ScopedState.Proofs.Bindings
import ScopedState.Proofs.Json.Equality
import ScopedState.Proofs.Json.Layout
import ScopedState.Proofs.Utf8
import ScopedState.Storage
set_option autoImplicit false

namespace ScopedState

open Bindings (Sorted get?)

namespace Bindings

variable {κ ν : Type} [DecidableEq κ] [LT κ] [DecidableLT κ]

/-- Binding listed keys to a function's values, whatever is bound before. -/
theorem get?_foldl_insert (keys : List κ) (f : κ → ν) (m : Bindings κ ν) (k : κ) :
    get? ((keys.map fun a => (a, f a)).foldl (fun m entry => insert m entry.1 entry.2) m) k
      = if k ∈ keys then some (f k) else get? m k := by
  induction keys generalizing m with
  | nil => simp
  | cons a keys ih =>
    rw [List.map_cons, List.foldl_cons, ih, get?_insert]
    by_cases hk : k ∈ keys
    · rw [if_pos hk, if_pos (List.mem_cons_of_mem _ hk)]
    · by_cases hka : k = a
      · subst hka
        rw [if_neg hk, if_pos rfl, if_pos List.mem_cons_self]
      · have hnot : k ∉ a :: keys := by
          intro h
          exact (List.mem_cons.mp h).elim hka hk
        rw [if_neg hk, if_neg hka, if_neg hnot]

/-- **A function tabulated on listed keys.** -/
theorem get?_tabulate (keys : List κ) (f : κ → ν) (k : κ) :
    get? (ofList (keys.map fun a => (a, f a))) k = if k ∈ keys then some (f k) else none :=
  get?_foldl_insert keys f [] k

end Bindings

namespace Document

variable {d e : Document} {states : States}

/-! ## 1. Replacing and merging -/

/-- A name that is put gets its state. -/
theorem get?_put (d : Document) (name : String) (state : Option Json) (n : String) :
    get? (d.put name state) n = if n = name then state else get? d n := by
  cases state with
  | some v => exact Bindings.get?_insert d name v n
  | none => exact Bindings.get?_erase d name n

theorem sorted_put (hd : Sorted d) (name : String) (state : Option Json) :
    Sorted (d.put name state) := by
  cases state with
  | some v => exact Bindings.Sorted.insert hd name v
  | none => exact Bindings.Sorted.erase hd name

theorem merge_cons (d : Document) (name : String) (state : Option Json) (rest : States) :
    d.merge ((name, state) :: rest) = (d.put name state).merge rest := rfl

theorem sorted_merge (hd : Sorted d) (states : States) : Sorted (d.merge states) := by
  induction states generalizing d with
  | nil => exact hd
  | cons entry rest ih => exact ih (sorted_put hd entry.1 entry.2)

/-- **Merging, name by name.** A merged name gets its state, any other keeps
its entry. -/
theorem get?_merge (hs : Sorted states) (d : Document) (n : String) :
    get? (d.merge states) n = (get? states n).getD (get? d n) := by
  induction states generalizing d with
  | nil => rfl
  | cons entry rest ih =>
    obtain ⟨name, state⟩ := entry
    rw [merge_cons, ih hs.tail, get?_put, get?]
    by_cases hn : n = name
    · -- The name is not merged a second time: it does not stand in the rest.
      subst hn
      rw [hs.get?_tail, if_pos rfl, if_pos rfl, Option.getD_none, Option.getD_some]
    · rw [if_neg hn, if_neg hn]

/-! ## 2. Equal documents -/

/-- **Two documents are equal when they bind every name to equal states.** -/
theorem same_iff (hd : Sorted d) (he : Sorted e) :
    d.same e = true ↔ ∀ n, Json.sameOption (get? d n) (get? e n) = true :=
  Json.sameFields_iff hd he

theorem same_refl (d : Document) : d.same d = true := Json.sameFields_refl d

theorem same_symm (h : d.same e = true) : e.same d = true := Json.sameFields_symm d e h

/-- A merge leaves a document as it is when the states are the ones there. -/
theorem same_merge_iff (hd : Sorted d) (hs : Sorted states) :
    (d.merge states).same d = true ↔
      ∀ n state, get? states n = some state → Json.sameOption state (get? d n) = true := by
  rw [same_iff (sorted_merge hd states) hd]
  constructor
  · intro h n state hn
    have hsame := h n
    rwa [get?_merge hs, hn, Option.getD_some] at hsame
  · intro h n
    rw [get?_merge hs]
    cases hn : get? states n with
    | none =>
      rw [Option.getD_none]
      exact Json.sameOption_refl _
    | some state =>
      rw [Option.getD_some]
      exact h n state hn

/-! ## 3. Documents of one text -/

/-- The text of an entry, in its place in a document. -/
def entryText (entry : Option Json) : Option (List Char) := entry.map (Json.pretty 1)

/-- Every name has an entry of the same text in both documents, or in none. -/
def WrittenAlike (d e : Document) : Prop := ∀ n, entryText (get? d n) = entryText (get? e n)

namespace WrittenAlike

theorem refl (d : Document) : WrittenAlike d d := fun _ => rfl

theorem symm (h : WrittenAlike d e) : WrittenAlike e d := fun n => (h n).symm

theorem trans {f : Document} (h : WrittenAlike d e) (h' : WrittenAlike e f) : WrittenAlike d f :=
  fun n => (h n).trans (h' n)

/-- **Merging keeps texts alike.** -/
theorem merge (h : WrittenAlike d e) (hs : Sorted states) :
    WrittenAlike (d.merge states) (e.merge states) := by
  intro n
  rw [get?_merge hs, get?_merge hs]
  cases get? states n with
  | none => exact h n
  | some state => rfl

end WrittenAlike

/-- The texts of the entries, in order. -/
theorem get?_fieldTexts (d : Document) (n : String) :
    get? (Json.fieldTexts d) n = entryText (get? d n) :=
  Bindings.get?_mapEntries d (fun f => Json.pretty 1 f.2) n

/-- **The bytes of a document are the texts of its entries.** -/
theorem serialize_eq_iff (hd : Sorted d) (he : Sorted e) :
    d.serialize = e.serialize ↔ WrittenAlike d e := by
  have htext : d.serialize = e.serialize ↔ Json.fieldTexts d = Json.fieldTexts e := by
    rw [← Json.pretty_object_eq_iff]
    constructor
    · intro h
      exact List.append_cancel_right (Utf8.encode_injective h)
    · intro h
      rw [serialize, serialize, Json.toStored, Json.toStored, h]
  rw [htext]
  constructor
  · intro h n
    rw [← get?_fieldTexts, ← get?_fieldTexts, h]
  · intro h
    -- The texts ascend by name as the entries do, so they are known by their lookups.
    have hd' : Sorted (Json.fieldTexts d) := hd.mapValues fun f => Json.pretty 1 f.2
    have he' : Sorted (Json.fieldTexts e) := he.mapValues fun f => Json.pretty 1 f.2
    refine hd'.ext he' fun n => ?_
    rw [get?_fieldTexts, get?_fieldTexts]
    exact h n

end Document

/-! ## 4. What is read has its names in order -/

namespace Json

namespace Literal

theorem double?_ne_object {negative : Bool} {n : Nat} {e : Int} {fields : List (String × Json)} :
    double? negative n e ≠ some (.object fields) := by
  intro h
  rw [double?, Option.map_eq_some_iff] at h
  obtain ⟨x, _, hx⟩ := h
  cases hx

theorem integer?_ne_object {negative : Bool} {n : Nat} {fields : List (String × Json)} :
    integer? negative n ≠ some (.object fields) := by
  unfold integer?
  split
  · simp
  · split <;> simp

/-- **A number is not an object.** -/
theorem value?_ne_object {l : Literal} {fields : List (String × Json)} :
    l.value? ≠ some (.object fields) := by
  unfold value?
  simp only []
  split
  · split
    -- Every way to read a number ends in an integer or a double.
    · split
      · rename_i v hv
        intro h
        rw [h] at hv
        exact integer?_ne_object hv
      · exact double?_ne_object
    · exact double?_ne_object
  · split
    · exact double?_ne_object
    · split
      · exact double?_ne_object
      · split <;> simp

end Literal

theorem readNumber_ne_object {negative : Bool} {text rest : List Char}
    {fields : List (String × Json)} : readNumber negative text ≠ .ok (.object fields, rest) := by
  intro h
  simp only [readNumber, bind, Except.bind, pure, Except.pure, throw, throwThe,
    MonadExceptOf.throw] at h
  split at h
  · cases h
  · split at h
    · cases h
    · split at h
      · cases h
      · split at h
        · rename_i v hv
          obtain ⟨rfl, _⟩ := Prod.mk.inj (Except.ok.inj h)
          exact Literal.value?_ne_object hv
        · cases h

/-- A scalar is not an object. -/
theorem readScalar_ne_object {text rest : List Char} {fields : List (String × Json)} :
    readScalar text ≠ .ok (.object fields, rest) := by
  unfold readScalar
  split
  · rename_i text
    intro h
    cases hstring : readString [] text <;> rw [hstring] at h <;> cases h
  · exact readNumber_ne_object
  · split
    · exact readNumber_ne_object
    · repeat' split
      all_goals simp
  · simp

/-- Reading fields gives an object whose keys ascend. -/
theorem sorted_of_readFields {item : Scan Json} {fuel : Nat} {seen : Bindings String Json}
    {text rest : List Char} {v : Json} (hseen : Sorted seen)
    (h : readFields item fuel seen text = .ok (v, rest)) :
    ∃ fields, v = .object fields ∧ Sorted fields := by
  induction fuel generalizing seen text with
  | zero => simp [readFields] at h
  | succ fuel ih =>
    rw [readFields] at h
    split at h
    · simp at h
    · split at h
      · simp at h
      · rename_i key rest' _ _ w rest'' _
        split at h
        · exact ih (hseen.insert key w) h
        · simp only [Except.ok.injEq, Prod.mk.injEq] at h
          exact ⟨_, h.1.symm, hseen.insert key w⟩
        · simp at h

/-- Reading items gives an array. -/
theorem isArray_of_readItems {item : Scan Json} {fuel : Nat} {seen : List Json}
    {text rest : List Char} {v : Json} (h : readItems item fuel seen text = .ok (v, rest)) :
    ∃ items, v = .array items := by
  induction fuel generalizing seen text with
  | zero => simp [readItems] at h
  | succ fuel ih =>
    rw [readItems] at h
    split at h
    · simp at h
    · split at h
      · exact ih h
      · simp only [Except.ok.injEq, Prod.mk.injEq] at h
        exact ⟨_, h.1.symm⟩
      · simp at h

/-- **An object that is read has ascending keys.** -/
theorem sorted_of_readValue {depth : Nat} {text rest : List Char} {fields : List (String × Json)}
    (h : readValue depth text = .ok (.object fields, rest)) : Sorted fields := by
  cases depth with
  | zero =>
    rw [readValue] at h
    split at h
    · cases h
    · cases h
    · exact absurd h readScalar_ne_object
  | succ depth =>
    rw [readValue] at h
    split at h
    · split at h
      · cases h
      · obtain ⟨items, hitems⟩ := isArray_of_readItems h
        cases hitems
    · split at h
      · obtain ⟨hfields, _⟩ := Prod.mk.inj (Except.ok.inj h)
        rw [← Json.object.inj hfields]
        exact Bindings.sorted_nil
      · obtain ⟨fields', hfields, hsorted⟩ := sorted_of_readFields Bindings.sorted_nil h
        rw [Json.object.inj hfields]
        exact hsorted
    · exact absurd h readScalar_ne_object

end Json

/-- **What is parsed has its names in order.** -/
theorem Document.sorted_of_parse {unit : Path} {bytes : Bytes} {d : Document}
    (h : Document.parse unit bytes = .ok d) : Sorted d := by
  -- An empty unit is the empty document; any other is read as one value, to the end.
  unfold Document.parse at h
  split at h
  · cases h
    exact Bindings.sorted_nil
  · split at h
    · rename_i d' hd
      cases h
      unfold Json.objectOfBytes at hd
      split at hd
      · cases hd
      · rename_i fields hfields
        cases hd
        unfold Json.ofBytes at hfields
        split at hfields
        · cases hfields
        · rename_i text _
          unfold Json.read Json.readWithin at hfields
          split at hfields
          · cases hfields
          · rename_i v rest hv
            split at hfields
            · cases hfields
              exact Json.sorted_of_readValue hv
            · cases hfields
      · cases hd
    · cases h

end ScopedState
