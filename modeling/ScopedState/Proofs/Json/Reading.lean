/-
`Proofs/Json/Reading.lean` -- what a written value is read as.

A value that is written in the pretty layout is read again item by item, and
whatever follows it is left. What comes out need not be the value: a double may
be read as its neighbour, and a value whose containers nest deeper than the
reader goes is not read at all. So reading a written value is a relation
(`ReadsAs`), which is told of a container once it is told of its items.

A value without doubles, of whole numbers of 64 bits and not too deep is read as
itself (`Storable`).
-/
import Mathlib.Data.List.Basic
import ScopedState.Proofs.Bindings
import ScopedState.Proofs.Json.Layout
set_option autoImplicit false

namespace ScopedState.Json

open Bindings (Sorted)

variable {d k : Nat} {v v' : Json} {text rest : List Char}

/-! ## 1. Blanks -/

theorem skipBlanks_cons_blank {c : Char} (hc : isBlank c = true) (text : List Char) :
    skipBlanks (c :: text) = skipBlanks text := by
  rw [skipBlanks, skipBlanks, List.dropWhile_cons, if_pos hc]

theorem skipBlanks_cons {c : Char} (hc : isBlank c = false) (text : List Char) :
    skipBlanks (c :: text) = c :: text := by
  rw [skipBlanks, List.dropWhile_cons, hc]
  rfl

theorem skipBlanks_newLine (depth : Nat) (text : List Char) :
    skipBlanks (newLine depth ++ text) = skipBlanks text := by
  rw [newLine, List.cons_append, skipBlanks_cons_blank rfl]
  induction 2 * depth with
  | zero => rfl
  | succ n ih => rw [List.replicate_succ, List.cons_append, skipBlanks_cons_blank rfl, ih]

/-- The first character that is not skipped is not a blank. -/
theorem skipBlanks_eq_cons {c : Char} (h : skipBlanks text = c :: rest) : isBlank c = false := by
  have hhead := List.head?_dropWhile_not isBlank text
  unfold skipBlanks at h
  rw [h] at hhead
  simpa using hhead

theorem skipBlanks_skipBlanks (text : List Char) :
    skipBlanks (skipBlanks text) = skipBlanks text := by
  cases h : skipBlanks text with
  | nil => rfl
  | cons c rest => exact skipBlanks_cons (skipBlanks_eq_cons h) rest

/-- A value is read from behind the blanks in front of it. -/
theorem readValue_congr (d : Nat) {a b : List Char} (h : skipBlanks a = skipBlanks b) :
    readValue d a = readValue d b := by
  cases d with
  | zero => rw [readValue, readValue, h]
  | succ d => rw [readValue, readValue, h]

/-- What is skipped does not count. -/
theorem countP_skipBlanks (text : List Char) :
    (skipBlanks text).countP (fun c => !isBlank c) = text.countP fun c => !isBlank c := by
  induction text with
  | nil => rfl
  | cons c text ih =>
    cases hc : isBlank c with
    | true => rw [skipBlanks_cons_blank hc, ih, List.countP_cons_of_neg (by simp [hc])]
    | false => rw [skipBlanks_cons hc]

/-- Where a value can be read, it begins with no closing bracket. -/
theorem skipBlanks_of_readValue {r : Json × List Char} (h : readValue d text = .ok r) :
    ∃ c rest, skipBlanks text = c :: rest ∧ c ≠ ']' := by
  cases hskip : skipBlanks text with
  | nil => cases d <;> simp [readValue, hskip, readScalar] at h
  | cons c rest =>
    refine ⟨c, rest, rfl, ?_⟩
    rintro rfl
    cases d <;> simp [readValue, hskip, readScalar, afterWord] at h

/-! ## 2. Whole numbers -/

theorem AtEnd.cases (h : AtEnd rest) : rest = [] ∨ ∃ t, rest = ',' :: t ∨ rest = '\n' :: t := by
  cases rest with
  | nil => exact Or.inl rfl
  | cons c t =>
    refine Or.inr ⟨t, ?_⟩
    rw [AtEnd, front] at h
    split at h
    · rename_i hend
      simp only [endsValue, decide_true, Bool.true_and, Bool.or_eq_true, decide_eq_true_eq] at hend
      exact hend.imp (fun hc => by rw [hc]) fun hc => by rw [hc]
    · cases (Prod.mk.inj h).1

theorem takeDigits_natDigits (n : Nat) (h : AtEnd rest) :
    takeDigits (natDigits n ++ rest) = ((natDigits n).map fun c => c.toNat - 48, rest) := by
  have hdigits : ∀ c ∈ natDigits n, c.isDigit = true := fun c hc =>
    Nat.isDigit_of_mem_toDigits (by omega) (by omega) hc
  have hrest : rest.takeWhile Char.isDigit = [] ∧ rest.dropWhile Char.isDigit = rest := by
    rcases h.cases with rfl | ⟨t, rfl | rfl⟩ <;> exact ⟨rfl, rfl⟩
  rw [takeDigits, List.takeWhile_append_of_pos hdigits, List.dropWhile_append_of_pos hdigits,
    hrest.1, hrest.2, List.append_nil]

/-- Digits that make up a number within the limit are all collected. -/
theorem collect_eq {limit : Nat} {cs : List Char} {n : Nat}
    (h : Nat.ofDigitChars 10 cs n ≤ limit) :
    Literal.collect limit n (cs.map fun c => c.toNat - 48) = (Nat.ofDigitChars 10 cs n, 0) := by
  have hgrows : ∀ (cs : List Char) (n : Nat), n ≤ Nat.ofDigitChars 10 cs n := by
    intro cs
    induction cs with
    | nil => exact fun n => Nat.le_refl n
    | cons c cs ih =>
      intro n
      rw [Nat.ofDigitChars_cons]
      exact Nat.le_trans (by omega) (ih _)
  induction cs generalizing n with
  | nil => rfl
  | cons c cs ih =>
    have hzero : '0'.toNat = 48 := rfl
    rw [Nat.ofDigitChars_cons, hzero] at h ⊢
    have hstep : n * 10 + (c.toNat - 48) = 10 * n + (c.toNat - 48) := by omega
    have hfits : ¬ limit < 10 * n + (c.toNat - 48) := by
      have hle := hgrows cs (10 * n + (c.toNat - 48))
      omega
    rw [List.map_cons, Literal.collect, hstep, if_neg hfits]
    exact ih h

theorem collect_natDigits {limit n : Nat} (h : n ≤ limit) :
    Literal.collect limit 0 ((natDigits n).map fun c => c.toNat - 48) = (n, 0) := by
  have hvalue : Nat.ofDigitChars 10 (natDigits n) 0 = n :=
    Nat.ofDigitChars_toDigits (by omega) (by omega)
  have hfits : Nat.ofDigitChars 10 (natDigits n) 0 ≤ limit := by omega
  have hcollect := collect_eq hfits
  rwa [hvalue] at hcollect

/-- The digits of a number do not begin with a zero, unless that is all of
them. -/
theorem head_natDigits (n : Nat) :
    ((natDigits n).map fun c => c.toNat - 48).head? ≠ some 0 ∨ n = 0 := by
  induction n using Nat.strongRecOn with
  | ind n ih =>
    by_cases hlt : n < 10
    · have hone : natDigits n = [Nat.digitChar n] := Nat.toDigits_of_lt_base hlt
      have hvalue : ∀ m : Fin 10, (Nat.digitChar m.val).toNat - 48 = m.val := by decide
      rw [hone, List.map_singleton, List.head?_cons, hvalue ⟨n, hlt⟩]
      by_cases hn : n = 0
      · exact Or.inr hn
      · exact Or.inl fun h => hn (Option.some.inj h)
    · have hmore : natDigits n = natDigits (n / 10) ++ [Nat.digitChar (n % 10)] :=
        Nat.toDigits_of_base_le (by omega) (by omega)
      have hne : ((natDigits (n / 10)).map fun c => c.toNat - 48) ≠ [] := by
        rw [ne_eq, List.map_eq_nil_iff]
        exact Nat.toDigits_ne_nil
      rw [hmore, List.map_append, List.head?_append_of_ne_nil _ hne]
      exact Or.inl ((ih (n / 10) (by omega)).resolve_right (by omega))

/-- **A natural number is read from its digits**, up to what follows them. -/
theorem readNumber_natDigits (negative : Bool) {n : Nat} (hn : n ≤ Literal.wordLimit)
    (h : AtEnd rest) (hvalue : Literal.integer? negative n = some v) :
    readNumber negative (natDigits n ++ rest) = .ok (v, rest) := by
  have hne : ((natDigits n).map fun c => c.toNat - 48) ≠ [] := by
    rw [ne_eq, List.map_eq_nil_iff]
    exact Nat.toDigits_ne_nil
  have hzero : n = 0 → ((natDigits n).map fun c => c.toNat - 48) = [0] := by
    rintro rfl
    rfl
  have hlead : ¬ (((natDigits n).map fun c => c.toNat - 48) = [] ||
      (((natDigits n).map fun c => c.toNat - 48).head? = some 0 &&
        ((natDigits n).map fun c => c.toNat - 48) ≠ [0])) = true := by
    simp only [Bool.or_eq_true, Bool.and_eq_true, decide_eq_true_eq, not_or, not_and]
    exact ⟨hne, fun hhead hnot => hnot (hzero ((head_natDigits n).resolve_left fun h => h hhead))⟩
  have hfraction : readFraction rest = .ok (none, rest) := by
    rcases h.cases with rfl | ⟨t, rfl | rfl⟩ <;> rfl
  have hexponent : readExponent rest = .ok (none, rest) := by
    rcases h.cases with rfl | ⟨t, rfl | rfl⟩ <;> rfl
  have hliteral : Literal.value?
      ⟨negative, (natDigits n).map fun c => c.toNat - 48, none, none⟩ = some v := by
    simp only [Literal.value?, collect_natDigits hn, if_true, hvalue]
  simp only [readNumber, takeDigits_natDigits n h, bind, Except.bind, pure, Except.pure]
  rw [if_neg hlead]
  simp only [hfraction, hexponent, hliteral]

/-! ## 3. Reading what was written -/

/-- **A written value is read as some value**, by a reader of a depth, where it
stands `k` steps deep. -/
def ReadsAs (d k : Nat) (v v' : Json) : Prop :=
  ∀ rest, AtEnd rest → readValue d (pretty k v ++ rest) = .ok (v', rest)

theorem ReadsAs.unique {v'' : Json} (h : ReadsAs d k v v') (h' : ReadsAs d k v v'') :
    v' = v'' := by
  have hread := h [] rfl
  rw [h' [] rfl] at hread
  exact (Prod.mk.inj (Except.ok.inj hread)).1.symm

/-- Text that is no container is read as a scalar. -/
theorem readValue_scalar {c : Char} (hblank : isBlank c = false) (hc : c ≠ '[' ∧ c ≠ '{')
    (text : List Char) : readValue d (c :: text) = readScalar (c :: text) := by
  cases d with
  | zero => simp [readValue, skipBlanks_cons hblank, hc.1, hc.2]
  | succ d => simp [readValue, skipBlanks_cons hblank, hc.1, hc.2]

/-- A digit is read as the first one of a number. -/
theorem readScalar_digit {c : Char} (hc : c.isDigit = true) (text : List Char) :
    readScalar (c :: text) = readNumber false (c :: text) := by
  rw [readScalar]
  · exact if_pos hc
  -- A digit is neither a quote nor a sign.
  · rintro rfl
    exact absurd hc (by decide)
  · rintro rfl
    exact absurd hc (by decide)

/-- A digit is no blank and no bracket. -/
theorem plain_of_isDigit {c : Char} (hc : c.isDigit = true) :
    isBlank c = false ∧ c ≠ '[' ∧ c ≠ '{' := by
  refine ⟨Bool.eq_false_iff.mpr fun h => ?_, ?_, ?_⟩
  · simp only [isBlank, Bool.or_eq_true, decide_eq_true_eq] at h
    rcases h with ((rfl | rfl) | rfl) | rfl <;> exact absurd hc (by decide)
  · rintro rfl
    exact absurd hc (by decide)
  · rintro rfl
    exact absurd hc (by decide)

/-- The least signed number of 64 bits. -/
def leastWord : Int := -9223372036854775808

theorem readsAs_negative {n : Int} (hneg : n < 0) (hlow : leastWord ≤ n) :
    ReadsAs d k (integer n) (integer n) := by
  intro rest hrest
  have hsize : n.natAbs ≤ Nat.pow 2 63 := by
    have hpow : Nat.pow 2 63 = 9223372036854775808 := rfl
    unfold leastWord at hlow
    omega
  have hpos : n.natAbs ≠ 0 := by omega
  have hvalue : Literal.integer? true n.natAbs = some (integer n) := by
    simp only [Literal.integer?]
    rw [if_neg (by simp), if_neg (by simp [hpos, hsize])]
    congr
    omega
  have hword : n.natAbs ≤ Literal.wordLimit := Nat.le_trans hsize (by decide)
  rw [pretty, writeScalar, writeInteger, if_pos hneg, List.cons_append,
    readValue_scalar rfl (by decide)]
  exact readNumber_natDigits true hword hrest hvalue

theorem readsAs_natural {n : Int} (hpos : ¬ n < 0) (hhigh : n ≤ Literal.wordLimit) :
    ReadsAs d k (integer n) (integer n) := by
  intro rest hrest
  have hvalue : Literal.integer? false n.natAbs = some (integer n) := by
    simp only [Literal.integer?, Bool.not_false, if_true]
    congr
    omega
  have hword : n.natAbs ≤ Literal.wordLimit := by omega
  have hread := readNumber_natDigits false hword hrest hvalue
  rw [pretty, writeScalar, writeInteger, if_neg hpos]
  -- The first digit is what tells a number from everything else.
  cases hdigits : natDigits n.natAbs with
  | nil => exact absurd hdigits Nat.toDigits_ne_nil
  | cons c digits =>
    have hmem : c ∈ natDigits n.natAbs := hdigits ▸ List.mem_cons_self
    have hc : c.isDigit = true := Nat.isDigit_of_mem_toDigits (by omega) (by omega) hmem
    obtain ⟨hblank, hbracket⟩ := plain_of_isDigit hc
    rw [hdigits] at hread
    rw [List.cons_append, readValue_scalar hblank hbracket, readScalar_digit hc]
    exact hread

theorem readsAs_integer {n : Int} (hlow : leastWord ≤ n) (hhigh : n ≤ Literal.wordLimit) :
    ReadsAs d k (integer n) (integer n) := by
  by_cases hneg : n < 0
  · exact readsAs_negative hneg hlow
  · exact readsAs_natural hneg hhigh

theorem readsAs_string (text : String) : ReadsAs d k (string text) (string text) := by
  intro rest _
  rw [pretty, writeScalar, quote, List.cons_append, List.cons_append,
    readValue_scalar rfl (by decide), readScalar, List.append_assoc, List.singleton_append,
    readString_quote]
  rfl

theorem readsAs_null : ReadsAs d k null null := by
  intro rest _
  rw [pretty, writeScalar, List.cons_append, readValue_scalar rfl (by decide)]
  rfl

theorem readsAs_bool (b : Bool) : ReadsAs d k (bool b) (bool b) := by
  intro rest _
  cases b <;>
  · rw [pretty, writeScalar, List.cons_append, readValue_scalar rfl (by decide)]
    rfl

/-! ## 4. Containers -/

/-- Each item takes at least one character that is no blank. -/
theorem length_le_prettyItems (k : Nat) (vs : List Json) :
    vs.length ≤ (prettyItems k vs).countP fun c => !isBlank c := by
  induction vs with
  | nil => exact Nat.zero_le _
  | cons v vs ih =>
    cases vs with
    | nil =>
      rw [prettyItems, List.countP_append]
      exact Nat.le_add_left 1 _
    | cons w vs =>
      rw [prettyItems, List.countP_append, List.countP_cons_of_pos rfl, List.length_cons]
      omega

theorem length_le_prettyFields (k : Nat) (fs : List (String × Json)) :
    fs.length ≤ (prettyFields k fs).countP fun c => !isBlank c := by
  induction fs with
  | nil => exact Nat.zero_le _
  | cons f fs ih =>
    cases fs with
    | nil =>
      rw [prettyFields, List.countP_append]
      exact Nat.le_add_left 1 _
    | cons g fs =>
      rw [prettyFields, List.countP_append, List.countP_cons_of_pos rfl, List.length_cons]
      omega

/-- Items are read from behind the blanks in front of them. -/
theorem readItems_congr {fuel : Nat} (hfuel : 0 < fuel) (seen : List Json) {a b : List Char}
    (h : skipBlanks a = skipBlanks b) :
    readItems (readValue d) fuel seen a = readItems (readValue d) fuel seen b := by
  obtain ⟨fuel, rfl⟩ := Nat.exists_eq_succ_of_ne_zero (Nat.ne_of_gt hfuel)
  rw [readItems, readItems, readValue_congr d h]

/-- Fields too. -/
theorem readFields_congr {item : Scan Json} {fuel : Nat} (hfuel : 0 < fuel)
    (seen : Bindings String Json) {a b : List Char} (h : skipBlanks a = skipBlanks b) :
    readFields item fuel seen a = readFields item fuel seen b := by
  obtain ⟨fuel, rfl⟩ := Nat.exists_eq_succ_of_ne_zero (Nat.ne_of_gt hfuel)
  rw [readFields, readFields, readKey, readKey, h]

/-- What is left of a text behind its blanks is as long as there are characters in
it that are none. -/
theorem le_length_skipBlanks {n : Nat} (h : n ≤ text.countP fun c => !isBlank c)
    (rest : List Char) : n ≤ (skipBlanks (text ++ rest)).length := by
  have hcount := countP_skipBlanks (text ++ rest)
  have hle := List.countP_le_length (p := fun c => !isBlank c) (l := skipBlanks (text ++ rest))
  rw [List.countP_append] at hcount
  omega

/-- **Items are read one after the other.** -/
theorem readItems_pretty {vs vs' : List Json} (h : List.Forall₂ (ReadsAs d (k + 1)) vs vs') :
    ∀ (fuel : Nat) (seen : List Json) (rest : List Char), vs ≠ [] → vs.length ≤ fuel →
      readItems (readValue d) fuel seen (prettyItems k vs ++ rest)
        = .ok (.array (seen.reverse ++ vs'), rest) := by
  induction h with
  | nil => exact fun fuel seen rest hne => absurd rfl hne
  | @cons v v' vs vs' hv hvs ih =>
    intro fuel seen rest _ hfuel
    cases fuel with
    | zero => exact absurd hfuel (by simp)
    | succ fuel =>
      cases vs with
      | nil =>
        cases hvs
        have hread := hv (newLine k ++ ']' :: rest) (atEnd_newLine k _)
        rw [prettyItems, readItems]
        simp only [List.append_assoc, List.singleton_append]
        rw [readValue_congr d (skipBlanks_newLine (k + 1) _), hread]
        simp only [skipBlanks_newLine]
        rw [skipBlanks_cons rfl]
        simp
      | cons w vs =>
        have hread := hv (',' :: (prettyItems k (w :: vs) ++ rest)) (atEnd_comma _)
        rw [prettyItems, readItems]
        simp only [List.append_assoc, List.cons_append]
        rw [readValue_congr d (skipBlanks_newLine (k + 1) _), hread]
        simp only [skipBlanks_cons (c := ',') rfl]
        rw [ih fuel (v' :: seen) rest (List.cons_ne_nil _ _) (Nat.le_of_succ_le_succ hfuel)]
        simp

/-- Two fields with one key, the one read as the other. -/
def FieldReadsAs (d k : Nat) (f f' : String × Json) : Prop := f.1 = f'.1 ∧ ReadsAs d k f.2 f'.2

theorem readKey_quote (key : String) (rest : List Char) :
    readKey (newLine k ++ (quote key ++ ':' :: rest)) = .ok (key, rest) := by
  rw [readKey]
  simp only [skipBlanks_newLine, quote, List.cons_append]
  rw [skipBlanks_cons rfl]
  simp only [List.append_assoc, List.singleton_append, readString_quote]
  rw [skipBlanks_cons rfl]
  rfl

/-- **Fields are read one after the other**, each bound to what its value is read
as. -/
theorem readFields_pretty {fs fs' : List (String × Json)}
    (h : List.Forall₂ (FieldReadsAs d (k + 1)) fs fs') :
    ∀ (fuel : Nat) (seen : Bindings String Json) (rest : List Char), fs ≠ [] → fs.length ≤ fuel →
      readFields (readValue d) fuel seen (prettyFields k fs ++ rest)
        = .ok (.object (fs'.foldl (fun m f => Bindings.insert m f.1 f.2) seen), rest) := by
  induction h with
  | nil => exact fun fuel seen rest hne => absurd rfl hne
  | @cons f f' fs fs' hf hfs ih =>
    intro fuel seen rest _ hfuel
    obtain ⟨key, v⟩ := f
    obtain ⟨key', v'⟩ := f'
    obtain ⟨rfl, hv⟩ : key = key' ∧ ReadsAs d (k + 1) v v' := hf
    have hspace : ∀ text, readValue d (' ' :: text) = readValue d text := fun text =>
      readValue_congr d (skipBlanks_cons_blank rfl text)
    cases fuel with
    | zero => exact absurd hfuel (by simp)
    | succ fuel =>
      cases fs with
      | nil =>
        cases hfs
        have hread := hv (newLine k ++ '}' :: rest) (atEnd_newLine k _)
        rw [prettyFields, readFields]
        simp only [List.append_assoc, List.cons_append, List.nil_append, readKey_quote, hspace,
          hread, skipBlanks_newLine]
        rw [skipBlanks_cons rfl]
        rfl
      | cons g fs =>
        have hread := hv (',' :: (prettyFields k (g :: fs) ++ rest)) (atEnd_comma _)
        rw [prettyFields, readFields]
        simp only [List.append_assoc, List.cons_append, readKey_quote, hspace, hread]
        rw [skipBlanks_cons rfl]
        exact ih fuel (Bindings.insert seen key v') rest (List.cons_ne_nil _ _)
          (Nat.le_of_succ_le_succ hfuel)

/-- **An array is read item by item**, if its first item is one that some reader
takes. -/
theorem readValue_items {D : Nat} {v v' : Json} (h : ReadsAs D (k + 1) v v') (vs : List Json)
    (rest : List Char) : ∃ fuel, (v :: vs).length ≤ fuel ∧
      readValue (d + 1) (pretty k (array (v :: vs)) ++ rest)
        = readItems (readValue d) fuel [] (prettyItems k (v :: vs) ++ rest) := by
  -- The items begin with an item, not with the closing bracket.
  have hfirst : ∃ tail, AtEnd tail ∧
      prettyItems k (v :: vs) ++ rest = newLine (k + 1) ++ (pretty (k + 1) v ++ tail) := by
    cases vs with
    | nil => exact ⟨newLine k ++ ']' :: rest, atEnd_newLine k _, by simp [prettyItems]⟩
    | cons w vs => exact ⟨',' :: (prettyItems k (w :: vs) ++ rest), rfl, by simp [prettyItems]⟩
  obtain ⟨tail, htail, htext⟩ := hfirst
  obtain ⟨c, t, hskip, hc⟩ := skipBlanks_of_readValue (h tail htail)
  rw [← skipBlanks_newLine (k + 1), ← htext] at hskip
  have hfuel := le_length_skipBlanks (length_le_prettyItems k (v :: vs)) rest
  rw [hskip] at hfuel
  have hblanks : skipBlanks (c :: t) = skipBlanks (prettyItems k (v :: vs) ++ rest) := by
    rw [← hskip, skipBlanks_skipBlanks]
  have hpos : 0 < (c :: t).length := Nat.succ_pos _
  refine ⟨(c :: t).length, hfuel, ?_⟩
  rw [← readItems_congr hpos [] hblanks, pretty, List.cons_append, readValue,
    skipBlanks_cons rfl]
  simp only [hskip]
  split
  · rename_i heq
    exact absurd (List.cons.inj heq).1 hc
  · rfl

/-- **An array is read as the array of what its items are read as**, by a reader
that goes one step deeper. -/
theorem readsAs_array {vs vs' : List Json} (h : List.Forall₂ (ReadsAs d (k + 1)) vs vs') :
    ReadsAs (d + 1) k (array vs) (array vs') := by
  intro rest _
  cases h with
  | nil => rfl
  | @cons v v' vs vs' hv hvs =>
    obtain ⟨fuel, hfuel, hread⟩ := readValue_items (d := d) hv vs rest
    rw [hread]
    exact readItems_pretty (.cons hv hvs) fuel [] rest (List.cons_ne_nil _ _) hfuel

/-- **An object is read field by field**, as its fields begin with the quote of a key. -/
theorem readValue_fields (f : String × Json) (fs : List (String × Json)) (rest : List Char) :
    ∃ fuel, (f :: fs).length ≤ fuel ∧
      readValue (d + 1) (pretty k (object (f :: fs)) ++ rest)
        = readFields (readValue d) fuel [] (prettyFields k (f :: fs) ++ rest) := by
  have hfirst : ∃ tail, skipBlanks (prettyFields k (f :: fs) ++ rest) = '"' :: tail := by
    cases fs with
    | nil =>
      rw [prettyFields]
      simp only [List.append_assoc, skipBlanks_newLine, quote, List.cons_append]
      exact ⟨_, skipBlanks_cons rfl _⟩
    | cons g fs =>
      rw [prettyFields]
      simp only [List.append_assoc, skipBlanks_newLine, quote, List.cons_append]
      exact ⟨_, skipBlanks_cons rfl _⟩
  obtain ⟨t, hskip⟩ := hfirst
  have hfuel := le_length_skipBlanks (length_le_prettyFields k (f :: fs)) rest
  rw [hskip] at hfuel
  have hblanks : skipBlanks ('"' :: t) = skipBlanks (prettyFields k (f :: fs) ++ rest) := by
    rw [← hskip, skipBlanks_skipBlanks]
  have hpos : 0 < ('"' :: t).length := Nat.succ_pos _
  refine ⟨('"' :: t).length, hfuel, ?_⟩
  rw [← readFields_congr hpos [] hblanks, pretty, List.cons_append, readValue,
    skipBlanks_cons rfl]
  simp only [hskip]
  rfl

/-- **An object is read as the object of what its fields are read as**, of two
fields with one key the last one. -/
theorem readsAs_object {fs fs' : List (String × Json)}
    (h : List.Forall₂ (FieldReadsAs d (k + 1)) fs fs') :
    ReadsAs (d + 1) k (object fs) (object (Bindings.ofList fs')) := by
  intro rest _
  cases h with
  | nil => rfl
  | @cons f f' fs fs' hf hfs =>
    obtain ⟨fuel, hfuel, hread⟩ := readValue_fields (d := d) (k := k) f fs rest
    rw [hread]
    exact readFields_pretty (.cons hf hfs) fuel [] rest (List.cons_ne_nil _ _) hfuel

/-! ## 5. Values that are read as themselves -/

mutual

/-- **A value that is read as itself** by a reader of a depth: it has no doubles,
its whole numbers are of 64 bits, the keys of its objects ascend, and its
containers nest at most so deep. -/
def Storable : Json → Nat → Prop
  | null, _ => True
  | bool _, _ => True
  | integer n, _ => leastWord ≤ n ∧ n ≤ Literal.wordLimit
  | float _, _ => False
  | string _, _ => True
  | array items, d => 0 < d ∧ StorableItems items (d - 1)
  | object fields, d => 0 < d ∧ Sorted fields ∧ StorableFields fields (d - 1)

/-- `Storable` of the items of an array. -/
def StorableItems : List Json → Nat → Prop
  | [], _ => True
  | v :: vs, d => Storable v d ∧ StorableItems vs d

/-- `Storable` of the fields of an object. -/
def StorableFields : List (String × Json) → Nat → Prop
  | [], _ => True
  | (_, v) :: fs, d => Storable v d ∧ StorableFields fs d

end

mutual

/-- **What is storable is read as it was.** -/
theorem readsAs_self : ∀ (v : Json) (d k : Nat), v.Storable d → ReadsAs d k v v
  | null, _, _, _ => readsAs_null
  | bool b, _, _, _ => readsAs_bool b
  | integer _, _, _, h => readsAs_integer h.1 h.2
  | string text, _, _, _ => readsAs_string text
  | array items, d, k, h => by
    obtain ⟨d, rfl⟩ := Nat.exists_eq_succ_of_ne_zero (Nat.ne_of_gt h.1)
    exact readsAs_array (readsAs_items items d (k + 1) h.2)
  | object fields, d, k, h => by
    obtain ⟨d, rfl⟩ := Nat.exists_eq_succ_of_ne_zero (Nat.ne_of_gt h.1)
    have hread := readsAs_object (k := k) (readsAs_fields fields d (k + 1) h.2.2)
    rwa [h.2.1.ofList] at hread

theorem readsAs_items : ∀ (vs : List Json) (d k : Nat), StorableItems vs d →
    List.Forall₂ (ReadsAs d k) vs vs
  | [], _, _, _ => .nil
  | v :: vs, d, k, h => .cons (readsAs_self v d k h.1) (readsAs_items vs d k h.2)

theorem readsAs_fields : ∀ (fs : List (String × Json)) (d k : Nat), StorableFields fs d →
    List.Forall₂ (FieldReadsAs d k) fs fs
  | [], _, _, _ => .nil
  | (_, v) :: fs, d, k, h => .cons ⟨rfl, readsAs_self v d k h.1⟩ (readsAs_fields fs d k h.2)

end

/-- The fields with their strings replaced, as a map. -/
theorem mapStringsFields_eq (f : String → String) (fs : List (String × Json)) :
    mapStringsFields f fs = fs.map fun e => (e.1, mapStrings f e.2) := by
  induction fs with
  | nil => rfl
  | cons e fs ih =>
    obtain ⟨k, v⟩ := e
    rw [mapStringsFields, ih]
    rfl

mutual

/-- Replacing strings keeps a value storable. -/
theorem storable_mapStrings (f : String → String) :
    ∀ (v : Json) (d : Nat), v.Storable d → (v.mapStrings f).Storable d
  | null, _, _ => trivial
  | bool _, _, _ => trivial
  | integer _, _, h => h
  | string _, _, _ => trivial
  | array items, d, h => ⟨h.1, storable_mapStringsItems f items (d - 1) h.2⟩
  | object fields, d, h => by
    refine ⟨h.1, ?_, storable_mapStringsFields f fields (d - 1) h.2.2⟩
    rw [mapStringsFields_eq]
    exact h.2.1.mapValues fun e => mapStrings f e.2

theorem storable_mapStringsItems (f : String → String) :
    ∀ (vs : List Json) (d : Nat), StorableItems vs d → StorableItems (mapStringsItems f vs) d
  | [], _, _ => trivial
  | v :: vs, d, h => ⟨storable_mapStrings f v d h.1, storable_mapStringsItems f vs d h.2⟩

theorem storable_mapStringsFields (f : String → String) :
    ∀ (fs : List (String × Json)) (d : Nat), StorableFields fs d →
      StorableFields (mapStringsFields f fs) d
  | [], _, _ => trivial
  | (_, v) :: fs, d, h => ⟨storable_mapStrings f v d h.1, storable_mapStringsFields f fs d h.2⟩

end

mutual

/-- **Without doubles, equal values are one value.** -/
theorem eq_of_same : ∀ (v w : Json) (d : Nat), v.Storable d → same v w = true → w = v
  | null, w, _, _, h => by cases w <;> simp_all [same]
  | bool _, w, _, _, h => by cases w <;> simp_all [same]
  | integer _, w, _, _, h => by cases w <;> simp_all [same]
  | string _, w, _, _, h => by cases w <;> simp_all [same]
  | array vs, w, d, hv, h => by
    cases w with
    | array ws =>
      rw [same] at h
      rw [eq_of_sameItems vs ws (d - 1) hv.2 h]
    | _ => simp [same] at h
  | object fs, w, d, hv, h => by
    cases w with
    | object gs =>
      rw [same] at h
      rw [eq_of_sameFields fs gs (d - 1) hv.2.2 h]
    | _ => simp [same] at h

theorem eq_of_sameItems : ∀ (vs ws : List Json) (d : Nat), StorableItems vs d →
    sameItems vs ws = true → ws = vs
  | [], ws, _, _, h => by cases ws <;> simp_all [sameItems]
  | v :: vs, ws, d, hv, h => by
    cases ws with
    | nil => simp [sameItems] at h
    | cons w ws =>
      rw [sameItems, Bool.and_eq_true] at h
      rw [eq_of_same v w d hv.1 h.1, eq_of_sameItems vs ws d hv.2 h.2]

theorem eq_of_sameFields : ∀ (fs gs : List (String × Json)) (d : Nat), StorableFields fs d →
    sameFields fs gs = true → gs = fs
  | [], gs, _, _, h => by cases gs <;> simp_all [sameFields]
  | (k, v) :: fs, gs, d, hv, h => by
    cases gs with
    | nil => simp [sameFields] at h
    | cons g gs =>
      obtain ⟨l, w⟩ := g
      rw [sameFields, Bool.and_eq_true, Bool.and_eq_true, beq_iff_eq] at h
      rw [h.1.1, eq_of_same v w d hv.1 h.1.2, eq_of_sameFields fs gs d hv.2 h.2]

end

end ScopedState.Json
