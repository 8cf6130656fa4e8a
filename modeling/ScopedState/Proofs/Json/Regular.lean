/-
`Proofs/Json/Regular.lean` -- the values that come out of the reader.

Whatever a text holds, the value it is read as has whole numbers of 64 bits and
doubles that are in range, and its containers nest at most as deep as the reader
went. Neither changes when its strings are replaced by others. And both together
are enough for the value to be read back once it is written: as itself, but for
the last place of its doubles. So a reader can be trusted with every text that was
written for a value that a reader gave, provided that it goes as deep as the value
does; and the one way to go wrong is to put a value into another container on the
way.

What is read back tells the strings that were written. So replacing strings either
leaves a value as it is, or gives one that neither is equal to it nor has a text that
is read as it.
-/
import ScopedState.Proofs.Json.Doubles
import ScopedState.Proofs.Storage.Entry
set_option autoImplicit false

namespace ScopedState

namespace Json

/-! ## 1. Depth and range -/

mutual

/-- How deep the containers of a value nest. -/
def depth : Json → Nat
  | array items => depthItems items + 1
  | object fields => depthFields fields + 1
  | null => 0
  | bool _ => 0
  | integer _ => 0
  | float _ => 0
  | string _ => 0

/-- How deep the containers of some items nest. -/
def depthItems : List Json → Nat
  | [] => 0
  | v :: vs => max (depth v) (depthItems vs)

/-- How deep the containers of some fields nest. -/
def depthFields : List (String × Json) → Nat
  | [] => 0
  | (_, v) :: fs => max (depth v) (depthFields fs)

end

mutual

/-- **A regular value**: its whole numbers are of 64 bits, and its doubles are in
range. -/
def Regular : Json → Prop
  | integer n => leastWord ≤ n ∧ n ≤ Literal.wordLimit
  | float x => x.Finite
  | array items => RegularItems items
  | object fields => RegularFields fields
  | null => True
  | bool _ => True
  | string _ => True

/-- `Regular` of the items of an array. -/
def RegularItems : List Json → Prop
  | [] => True
  | v :: vs => Regular v ∧ RegularItems vs

/-- `Regular` of the fields of an object. -/
def RegularFields : List (String × Json) → Prop
  | [] => True
  | (_, v) :: fs => Regular v ∧ RegularFields fs

end

/-- **A value that a reader of a depth may give**, and takes back. -/
def Within (d : Nat) (v : Json) : Prop := v.Regular ∧ v.depth ≤ d

theorem Within.mono {d d' : Nat} {v : Json} (h : v.Within d) (hd : d ≤ d') : v.Within d' :=
  ⟨h.1, h.2.trans hd⟩

theorem regularItems_iff (vs : List Json) : RegularItems vs ↔ ∀ v ∈ vs, v.Regular := by
  induction vs with
  | nil => simp [RegularItems]
  | cons v vs ih => rw [RegularItems, ih, List.forall_mem_cons]

theorem regularFields_iff (fs : List (String × Json)) :
    RegularFields fs ↔ ∀ f ∈ fs, f.2.Regular := by
  induction fs with
  | nil => simp [RegularFields]
  | cons f fs ih => rw [RegularFields, ih, List.forall_mem_cons]

theorem depthItems_le_iff {d : Nat} (vs : List Json) :
    depthItems vs ≤ d ↔ ∀ v ∈ vs, v.depth ≤ d := by
  induction vs with
  | nil => simp [depthItems]
  | cons v vs ih => rw [depthItems, max_le_iff, ih, List.forall_mem_cons]

theorem depthFields_le_iff {d : Nat} (fs : List (String × Json)) :
    depthFields fs ≤ d ↔ ∀ f ∈ fs, f.2.depth ≤ d := by
  induction fs with
  | nil => simp [depthFields]
  | cons f fs ih => rw [depthFields, max_le_iff, ih, List.forall_mem_cons]

mutual

/-- **Equal values are equally deep.** -/
theorem depth_eq_of_same : ∀ v w : Json, same v w = true → v.depth = w.depth
  | null, w, h => by cases w <;> simp [same] at h ⊢
  | bool _, w, h => by cases w <;> simp [same, depth] at h ⊢
  | integer _, w, h => by cases w <;> simp [same, depth] at h ⊢
  | float _, w, h => by cases w <;> simp [same, depth] at h ⊢
  | string _, w, h => by cases w <;> simp [same, depth] at h ⊢
  | array vs, w, h => by
    cases w <;> simp only [same, Bool.false_eq_true] at h
    rename_i ws
    rw [depth, depth, depthItems_eq_of_same vs ws h]
  | object fs, w, h => by
    cases w <;> simp only [same, Bool.false_eq_true] at h
    rename_i gs
    rw [depth, depth, depthFields_eq_of_same fs gs h]

theorem depthItems_eq_of_same : ∀ vs ws : List Json, sameItems vs ws = true →
    depthItems vs = depthItems ws
  | [], ws, h => by cases ws <;> simp [sameItems] at h ⊢
  | v :: vs, ws, h => by
    cases ws with
    | nil => simp [sameItems] at h
    | cons w ws =>
      obtain ⟨hv, hvs⟩ := Bool.and_eq_true_iff.mp h
      rw [depthItems, depthItems, depth_eq_of_same v w hv, depthItems_eq_of_same vs ws hvs]

theorem depthFields_eq_of_same : ∀ fs gs : List (String × Json), sameFields fs gs = true →
    depthFields fs = depthFields gs
  | [], gs, h => by cases gs <;> simp [sameFields] at h ⊢
  | (_, v) :: fs, gs, h => by
    cases gs with
    | nil => simp [sameFields] at h
    | cons g gs =>
      obtain ⟨hf, hfs⟩ := Bool.and_eq_true_iff.mp h
      rw [depthFields, depthFields, depth_eq_of_same v g.2 (Bool.and_eq_true_iff.mp hf).2,
        depthFields_eq_of_same fs gs hfs]

end

variable {d k : Nat} {v : Json}

/-- An array is one container around its items. -/
theorem within_array {items : List Json} :
    (array items).Within (d + 1) ↔ ∀ v ∈ items, v.Within d := by
  rw [Within, Regular, depth, regularItems_iff, Nat.add_le_add_iff_right, depthItems_le_iff]
  exact forall₂_and.symm

/-- An object is one container around its fields. -/
theorem within_object {fields : List (String × Json)} :
    (object fields).Within (d + 1) ↔ ∀ f ∈ fields, f.2.Within d := by
  rw [Within, Regular, depth, regularFields_iff, Nat.add_le_add_iff_right, depthFields_le_iff]
  exact forall₂_and.symm

/-! ## 2. Numbers that are read -/

namespace Literal

variable {negative : Bool} {n : Nat} {e : Int} {x y z : Binary64}

theorem finite_ofNat (n : Nat) : (Binary64.ofNat n).Finite := by
  unfold Binary64.ofNat
  cases h : Binary64.ofRatio? false n 1 with
  | none => exact ⟨Nat.pow_pos (by omega), Int.le_refl _, by decide⟩
  | some x => exact Binary64.finite_ofRatio? Nat.one_pos h

theorem finite_mul? (h : x.mul? y = some z) : z.Finite :=
  Binary64.finite_ofRatio? (Nat.mul_pos x.value_eq_ratio.1 y.value_eq_ratio.1) h

theorem finite_div? (hy : 0 < y.value) (h : x.div? y = some z) : z.Finite :=
  Binary64.finite_ofRatio? (Binary64.div?_ratio x hy).1 h

/-- Scaling ends in range. -/
theorem finite_scaleBy (steps : Nat) (hx : x.Finite) (h : scaleBy steps x e = some y) :
    y.Finite := by
  induction steps generalizing x e with
  | zero =>
    rw [← Option.some.inj h]
    exact hx
  | succ steps ih =>
    rw [scaleBy] at h
    split at h
    · rename_i hsmall
      have hpower := (le_powerOfTen hsmall).1
      split at h
      · exact finite_mul? h
      · exact finite_div? (by linarith) h
    · split at h
      · rw [← Option.some.inj h]
        exact hx
      · split at h
        · cases h
        · obtain ⟨w, hw, hrest⟩ := Option.bind_eq_some_iff.mp h
          exact ih (finite_div? (lt_of_lt_of_le two_pos two_le_greatPower) hw) hrest

theorem regular_double? {v : Json} (h : double? negative n e = some v) : v.Within 0 := by
  obtain ⟨x, hx, rfl⟩ := Option.map_eq_some_iff.mp h
  have hfinite := finite_scaleBy 4 (finite_ofNat n) hx
  exact ⟨⟨hfinite.significand, hfinite.low, hfinite.high⟩, Nat.le_refl 0⟩

/-- Digits are collected up to the limit. -/
theorem collect_le {limit : Nat} (ds : List Nat) (h : n ≤ limit) :
    (collect limit n ds).1 ≤ limit := by
  induction ds generalizing n with
  | nil => exact h
  | cons d ds ih =>
    rw [collect]
    split
    · exact h
    · rename_i hlimit
      exact ih (not_lt.mp hlimit)

theorem regular_integer? {v : Json} (hn : n ≤ wordLimit) (h : integer? negative n = some v) :
    v.Within 0 := by
  have hpow : Nat.pow 2 63 = 9223372036854775808 := rfl
  unfold integer? at h
  split at h
  · rw [← Option.some.inj h]
    refine ⟨⟨?_, by exact_mod_cast hn⟩, Nat.le_refl 0⟩
    unfold leastWord
    omega
  · split at h
    · cases h
    · rename_i hrange
      rw [Bool.not_eq_true, Bool.or_eq_false_iff, decide_eq_false_iff_not,
        decide_eq_false_iff_not] at hrange
      rw [← Option.some.inj h]
      refine ⟨⟨?_, ?_⟩, Nat.le_refl 0⟩
      · unfold leastWord
        omega
      · unfold wordLimit
        omega

/-- **A literal stands for a number in range**, if for any. -/
theorem regular_value? {l : Literal} {v : Json} (h : l.value? = some v) : v.Within 0 := by
  unfold value? at h
  simp only [] at h
  split at h
  · split at h
    · split at h
      · rename_i w hw
        rw [← Option.some.inj h]
        exact regular_integer? (collect_le _ (Nat.zero_le _)) hw
      · exact regular_double? h
    · exact regular_double? h
  · split at h
    · exact regular_double? h
    · split at h
      · exact regular_double? h
      · split at h
        · cases h
        · rw [← Option.some.inj h]
          have hleast : Binary64.leastExponent ≤ Binary64.greatestExponent := by decide
          exact ⟨⟨Nat.pow_pos (by omega), Int.le_refl _, hleast⟩, Nat.le_refl 0⟩

end Literal

/-! ## 3. Values that are read -/

section Reading

variable {text rest : List Char}

theorem within_readNumber {negative : Bool} (h : readNumber negative text = .ok (v, rest)) :
    v.Within 0 := by
  simp only [readNumber, bind, Except.bind, pure, Except.pure, throw, throwThe,
    MonadExceptOf.throw] at h
  split at h
  · cases h
  · split at h
    · cases h
    · split at h
      · cases h
      · split at h
        · rename_i v hv
          obtain ⟨rfl, _⟩ := Prod.mk.inj (Except.ok.inj h)
          exact Literal.regular_value? hv
        · cases h

theorem within_readScalar (h : readScalar text = .ok (v, rest)) : v.Within 0 := by
  unfold readScalar at h
  split at h
  · rename_i text
    cases hstring : readString [] text with
    | error e =>
      rw [hstring] at h
      cases h
    | ok r =>
      rw [hstring] at h
      obtain ⟨rfl, _⟩ := Prod.mk.inj (Except.ok.inj h)
      exact ⟨trivial, Nat.le_refl 0⟩
  · exact within_readNumber h
  · split at h
    · exact within_readNumber h
    -- What is left are the three words.
    · split at h
      · obtain ⟨rfl, _⟩ := Prod.mk.inj (Except.ok.inj h)
        exact ⟨trivial, Nat.le_refl 0⟩
      · split at h
        · obtain ⟨rfl, _⟩ := Prod.mk.inj (Except.ok.inj h)
          exact ⟨trivial, Nat.le_refl 0⟩
        · split at h
          · obtain ⟨rfl, _⟩ := Prod.mk.inj (Except.ok.inj h)
            exact ⟨trivial, Nat.le_refl 0⟩
          · cases h
  · cases h

/-- Items that are read have what is common to all that the reader of an item
gives. -/
theorem forall_of_readItems {P : Json → Prop} {item : Scan Json}
    (hitem : ∀ text v rest, item text = .ok (v, rest) → P v) {fuel : Nat} {seen : List Json}
    (hseen : ∀ w ∈ seen, P w) (h : readItems item fuel seen text = .ok (v, rest)) :
    ∃ items, v = .array items ∧ ∀ w ∈ items, P w := by
  induction fuel generalizing seen text with
  | zero => simp [readItems] at h
  | succ fuel ih =>
    rw [readItems] at h
    split at h
    · cases h
    · rename_i w rest' hw
      have hseen' : ∀ u ∈ w :: seen, P u := List.forall_mem_cons.mpr ⟨hitem _ _ _ hw, hseen⟩
      split at h
      · exact ih hseen' h
      · obtain ⟨rfl, _⟩ := Prod.mk.inj (Except.ok.inj h)
        exact ⟨_, rfl, fun u hu => hseen' u (List.mem_reverse.mp hu)⟩
      · cases h

/-- The same of fields. -/
theorem forall_of_readFields {P : Json → Prop} {item : Scan Json}
    (hitem : ∀ text v rest, item text = .ok (v, rest) → P v) {fuel : Nat}
    {seen : Bindings String Json} (hseen : ∀ f ∈ seen, P f.2)
    (h : readFields item fuel seen text = .ok (v, rest)) :
    ∃ fields, v = .object fields ∧ ∀ f ∈ fields, P f.2 := by
  induction fuel generalizing seen text with
  | zero => simp [readFields] at h
  | succ fuel ih =>
    rw [readFields] at h
    split at h
    · cases h
    · split at h
      · cases h
      · rename_i key rest' _ _ w rest'' hw
        have hseen' : ∀ f ∈ Bindings.insert seen key w, P f.2 := by
          intro f hf
          rcases Bindings.mem_insert hf with rfl | hf
          · exact hitem _ _ _ hw
          · exact hseen f hf
        split at h
        · exact ih hseen' h
        · obtain ⟨rfl, _⟩ := Prod.mk.inj (Except.ok.inj h)
          exact ⟨_, rfl, hseen'⟩
        · cases h

/-- **What is read is regular**, and no deeper than the reader went. -/
theorem within_readValue (h : readValue d text = .ok (v, rest)) : v.Within d := by
  induction d generalizing text v rest with
  | zero =>
    rw [readValue] at h
    split at h
    · cases h
    · cases h
    · exact within_readScalar h
  | succ d ih =>
    have hitem : ∀ text w rest, readValue d text = .ok (w, rest) → w.Within d :=
      fun _ _ _ hw => ih hw
    rw [readValue] at h
    split at h
    · split at h
      · obtain ⟨rfl, _⟩ := Prod.mk.inj (Except.ok.inj h)
        exact within_array.mpr (by simp)
      · obtain ⟨items, rfl, hitems⟩ := forall_of_readItems hitem (by simp) h
        exact within_array.mpr hitems
    · split at h
      · obtain ⟨rfl, _⟩ := Prod.mk.inj (Except.ok.inj h)
        exact within_object.mpr (by simp)
      · obtain ⟨fields, rfl, hfields⟩ := forall_of_readFields hitem (by simp) h
        exact within_object.mpr hfields
    · exact (within_readScalar h).mono (Nat.zero_le _)

/-- The same of a whole text. -/
theorem within_read (h : read text = .ok v) : v.Within depthLimit := by
  unfold read readWithin at h
  split at h
  · cases h
  · rename_i w rest hw
    split at h
    · rw [← Except.ok.inj h]
      exact within_readValue hw
    · cases h

end Reading

/-! ## 4. Replacing strings -/

mutual

/-- A value stays as deep as it is when its strings are replaced. -/
theorem depth_mapStrings (f : String → String) : ∀ v : Json, (v.mapStrings f).depth = v.depth
  | null => rfl
  | bool _ => rfl
  | integer _ => rfl
  | float _ => rfl
  | string _ => rfl
  | array items => by rw [mapStrings, depth, depth, depth_mapStringsItems f items]
  | object fields => by rw [mapStrings, depth, depth, depth_mapStringsFields f fields]

theorem depth_mapStringsItems (f : String → String) :
    ∀ vs : List Json, depthItems (mapStringsItems f vs) = depthItems vs
  | [] => rfl
  | v :: vs => by
    rw [mapStringsItems, depthItems, depthItems, depth_mapStrings f v, depth_mapStringsItems f vs]

theorem depth_mapStringsFields (f : String → String) :
    ∀ fs : List (String × Json), depthFields (mapStringsFields f fs) = depthFields fs
  | [] => rfl
  | (_, v) :: fs => by
    rw [mapStringsFields, depthFields, depthFields, depth_mapStrings f v,
      depth_mapStringsFields f fs]

end

mutual

/-- A regular value stays so when its strings are replaced. -/
theorem regular_mapStrings (f : String → String) :
    ∀ v : Json, v.Regular → (v.mapStrings f).Regular
  | null, h => h
  | bool _, h => h
  | integer _, h => h
  | float _, h => h
  | string _, _ => trivial
  | array items, h => regular_mapStringsItems f items h
  | object fields, h => regular_mapStringsFields f fields h

theorem regular_mapStringsItems (f : String → String) :
    ∀ vs : List Json, RegularItems vs → RegularItems (mapStringsItems f vs)
  | [], h => h
  | v :: vs, h => ⟨regular_mapStrings f v h.1, regular_mapStringsItems f vs h.2⟩

theorem regular_mapStringsFields (f : String → String) :
    ∀ fs : List (String × Json), RegularFields fs → RegularFields (mapStringsFields f fs)
  | [], h => h
  | (_, v) :: fs, h => ⟨regular_mapStrings f v h.1, regular_mapStringsFields f fs h.2⟩

end

theorem Within.mapStrings (h : v.Within d) (f : String → String) : (v.mapStrings f).Within d :=
  ⟨regular_mapStrings f v h.1, (depth_mapStrings f v).symm ▸ h.2⟩

/-! ## 5. Values that are read back -/

mutual

/-- **A regular value is read back**, as some value, by a reader that goes as deep as
it does. -/
theorem exists_readsAs : ∀ (v : Json) (d k : Nat), v.Within d → ∃ v', ReadsAs d k v v'
  | null, _, _, _ => ⟨null, readsAs_null⟩
  | bool b, _, _, _ => ⟨bool b, readsAs_bool b⟩
  | integer n, _, _, h => ⟨integer n, readsAs_integer h.1.1 h.1.2⟩
  | float _, _, _, h => by
    obtain ⟨y, hy⟩ := readsAs_float h.1
    exact ⟨float y, hy⟩
  | string text, _, _, _ => ⟨string text, readsAs_string text⟩
  | array items, d, k, h => by
    obtain ⟨d, rfl⟩ := Nat.exists_eq_succ_of_ne_zero (Nat.ne_of_gt (Nat.lt_of_lt_of_le
      (Nat.succ_pos _) h.2))
    obtain ⟨items', hitems⟩ := exists_readsAs_items items d (k + 1) (within_array.mp h)
    exact ⟨array items', readsAs_array hitems⟩
  | object fields, d, k, h => by
    obtain ⟨d, rfl⟩ := Nat.exists_eq_succ_of_ne_zero (Nat.ne_of_gt (Nat.lt_of_lt_of_le
      (Nat.succ_pos _) h.2))
    obtain ⟨fields', hfields⟩ := exists_readsAs_fields fields d (k + 1) (within_object.mp h)
    exact ⟨object (Bindings.ofList fields'), readsAs_object hfields⟩

theorem exists_readsAs_items : ∀ (vs : List Json) (d k : Nat), (∀ v ∈ vs, v.Within d) →
    ∃ vs', List.Forall₂ (ReadsAs d k) vs vs'
  | [], _, _, _ => ⟨[], .nil⟩
  | v :: vs, d, k, h => by
    rw [List.forall_mem_cons] at h
    obtain ⟨v', hv⟩ := exists_readsAs v d k h.1
    obtain ⟨vs', hvs⟩ := exists_readsAs_items vs d k h.2
    exact ⟨v' :: vs', .cons hv hvs⟩

theorem exists_readsAs_fields : ∀ (fs : List (String × Json)) (d k : Nat),
    (∀ f ∈ fs, f.2.Within d) → ∃ fs', List.Forall₂ (FieldReadsAs d k) fs fs'
  | [], _, _, _ => ⟨[], .nil⟩
  | (key, v) :: fs, d, k, h => by
    rw [List.forall_mem_cons] at h
    obtain ⟨v', hv⟩ := exists_readsAs v d k h.1
    obtain ⟨fs', hfs⟩ := exists_readsAs_fields fs d k h.2
    exact ⟨(key, v') :: fs', .cons ⟨rfl, hv⟩ hfs⟩

end

/-- A regular value that is not too deep for an entry can be read as one. -/
theorem Within.rereadable (h : v.Within Document.entryDepth) : v.Rereadable :=
  exists_readsAs v _ 1 h

/-! ## 6. Values that are not -/

mutual

/-- **A regular value that nests deeper than the reader goes is refused.** -/
theorem readValue_deep : ∀ (v : Json) (d k : Nat), v.Regular → d < v.depth →
    ∀ rest, ∃ e, readValue d (pretty k v ++ rest) = .error e
  | null, d, _, _, h => absurd h (Nat.not_lt_zero d)
  | bool _, d, _, _, h => absurd h (Nat.not_lt_zero d)
  | integer _, d, _, _, h => absurd h (Nat.not_lt_zero d)
  | float _, d, _, _, h => absurd h (Nat.not_lt_zero d)
  | string _, d, _, _, h => absurd h (Nat.not_lt_zero d)
  | array items, 0, k, _, _ => by
    intro rest
    cases items with
    | nil => exact ⟨.tooDeep, rfl⟩
    | cons v vs => exact ⟨.tooDeep, rfl⟩
  | array [], d + 1, _, _, h => absurd (Nat.lt_of_succ_lt_succ h) (Nat.not_lt_zero d)
  | array (v :: vs), d + 1, k, hregular, h => by
    intro rest
    obtain ⟨v', hv⟩ := exists_readsAs v v.depth (k + 1) ⟨hregular.1, Nat.le_refl _⟩
    obtain ⟨fuel, _, hread⟩ := readValue_items (d := d) hv vs rest
    rw [hread]
    exact readItems_deep (v :: vs) d k hregular (Nat.lt_of_succ_lt_succ h) fuel [] rest
  | object fields, 0, k, _, _ => by
    intro rest
    cases fields with
    | nil => exact ⟨.tooDeep, rfl⟩
    | cons f fs => exact ⟨.tooDeep, rfl⟩
  | object [], d + 1, _, _, h => absurd (Nat.lt_of_succ_lt_succ h) (Nat.not_lt_zero d)
  | object (f :: fs), d + 1, k, hregular, h => by
    intro rest
    obtain ⟨fuel, _, hread⟩ := readValue_fields (d := d) (k := k) f fs rest
    rw [hread]
    exact readFields_deep (f :: fs) d k hregular (Nat.lt_of_succ_lt_succ h) fuel [] rest

/-- Items are refused from the first one on that nests too deep. -/
theorem readItems_deep : ∀ (vs : List Json) (d k : Nat), RegularItems vs → d < depthItems vs →
    ∀ fuel seen rest, ∃ e, readItems (readValue d) fuel seen (prettyItems k vs ++ rest) = .error e
  | [], d, _, _, h => absurd h (Nat.not_lt_zero d)
  | v :: vs, d, k, hregular, h => by
    intro fuel seen rest
    cases fuel with
    | zero => exact ⟨_, rfl⟩
    | succ fuel =>
      by_cases hv : d < v.depth
      · have hitem : ∃ tail e, prettyItems k (v :: vs) ++ rest = newLine (k + 1) ++ tail ∧
            readValue d tail = .error e := by
          cases vs with
          | nil =>
            obtain ⟨e, he⟩ := readValue_deep v d (k + 1) hregular.1 hv (newLine k ++ ']' :: rest)
            exact ⟨_, e, by simp [prettyItems], he⟩
          | cons w vs =>
            obtain ⟨e, he⟩ := readValue_deep v d (k + 1) hregular.1 hv
              (',' :: (prettyItems k (w :: vs) ++ rest))
            exact ⟨_, e, by simp [prettyItems], he⟩
        obtain ⟨tail, e, htext, he⟩ := hitem
        refine ⟨e, ?_⟩
        rw [htext, readItems, readValue_congr d (skipBlanks_newLine (k + 1) _), he]
      · -- The item is read, so there are others.
        obtain ⟨v', hread⟩ := exists_readsAs v d (k + 1) ⟨hregular.1, Nat.le_of_not_lt hv⟩
        have hrest : d < depthItems vs := (lt_max_iff.mp h).resolve_left hv
        cases vs with
        | nil => exact absurd hrest (Nat.not_lt_zero d)
        | cons w vs =>
          obtain ⟨e, he⟩ := readItems_deep (w :: vs) d k hregular.2 hrest fuel (v' :: seen) rest
          refine ⟨e, ?_⟩
          have hread := hread (',' :: (prettyItems k (w :: vs) ++ rest)) (atEnd_comma _)
          rw [prettyItems, readItems]
          simp only [List.append_assoc, List.cons_append]
          rw [readValue_congr d (skipBlanks_newLine (k + 1) _), hread]
          simp only [skipBlanks_cons (c := ',') rfl]
          exact he

/-- Fields too. -/
theorem readFields_deep : ∀ (fs : List (String × Json)) (d k : Nat), RegularFields fs →
    d < depthFields fs → ∀ fuel seen rest,
      ∃ e, readFields (readValue d) fuel seen (prettyFields k fs ++ rest) = .error e
  | [], d, _, _, h => absurd h (Nat.not_lt_zero d)
  | (key, v) :: fs, d, k, hregular, h => by
    intro fuel seen rest
    have hspace : ∀ text, readValue d (' ' :: text) = readValue d text := fun text =>
      readValue_congr d (skipBlanks_cons_blank rfl text)
    cases fuel with
    | zero => exact ⟨_, rfl⟩
    | succ fuel =>
      by_cases hv : d < v.depth
      · cases fs with
        | nil =>
          obtain ⟨e, he⟩ := readValue_deep v d (k + 1) hregular.1 hv (newLine k ++ '}' :: rest)
          refine ⟨e, ?_⟩
          rw [prettyFields, readFields]
          simp only [List.append_assoc, List.cons_append, List.nil_append, readKey_quote, hspace,
            he]
        | cons g fs =>
          obtain ⟨e, he⟩ := readValue_deep v d (k + 1) hregular.1 hv
            (',' :: (prettyFields k (g :: fs) ++ rest))
          refine ⟨e, ?_⟩
          rw [prettyFields, readFields]
          simp only [List.append_assoc, List.cons_append, readKey_quote, hspace, he]
      · obtain ⟨v', hread⟩ := exists_readsAs v d (k + 1) ⟨hregular.1, Nat.le_of_not_lt hv⟩
        have hrest : d < depthFields fs := (lt_max_iff.mp h).resolve_left hv
        cases fs with
        | nil => exact absurd hrest (Nat.not_lt_zero d)
        | cons g fs =>
          obtain ⟨e, he⟩ := readFields_deep (g :: fs) d k hregular.2 hrest fuel
            (Bindings.insert seen key v') rest
          refine ⟨e, ?_⟩
          have hread := hread (',' :: (prettyFields k (g :: fs) ++ rest)) (atEnd_comma _)
          rw [prettyFields, readFields]
          simp only [List.append_assoc, List.cons_append, readKey_quote, hspace, hread]
          rw [skipBlanks_cons rfl]
          exact he

end

/-- **A regular value is read back exactly by the readers that go as deep as it does.** -/
theorem exists_readsAs_iff (h : v.Regular) : (∃ v', ReadsAs d k v v') ↔ v.depth ≤ d := by
  constructor
  · rintro ⟨v', hread⟩
    by_contra hdeep
    obtain ⟨e, he⟩ := readValue_deep v d k h (Nat.lt_of_not_le hdeep) []
    rw [hread [] rfl] at he
    cases he
  · exact fun hdepth => exists_readsAs v d k ⟨h, hdepth⟩

/-! ## 7. Strings that stay -/

mutual

/-- **A value that is equal to what it was before its strings were replaced** is what it
was. -/
theorem mapStrings_eq_of_same (f : String → String) : ∀ v : Json,
    same (v.mapStrings f) v = true → v.mapStrings f = v
  | null, _ => rfl
  | bool _, _ => rfl
  | integer _, _ => rfl
  | float _, _ => rfl
  | string _, h => congrArg string (eq_of_beq h)
  | array items, h => congrArg array (mapStringsItems_eq_of_same f items h)
  | object fields, h => congrArg object (mapStringsFields_eq_of_same f fields h)

theorem mapStringsItems_eq_of_same (f : String → String) : ∀ vs : List Json,
    sameItems (mapStringsItems f vs) vs = true → mapStringsItems f vs = vs
  | [], _ => rfl
  | v :: vs, h => by
    obtain ⟨hv, hvs⟩ := Bool.and_eq_true_iff.mp h
    rw [mapStringsItems, mapStrings_eq_of_same f v hv, mapStringsItems_eq_of_same f vs hvs]

theorem mapStringsFields_eq_of_same (f : String → String) : ∀ fs : List (String × Json),
    sameFields (mapStringsFields f fs) fs = true → mapStringsFields f fs = fs
  | [], _ => rfl
  | (_, v) :: fs, h => by
    obtain ⟨hfirst, hfs⟩ := Bool.and_eq_true_iff.mp h
    rw [mapStringsFields, mapStrings_eq_of_same f v (Bool.and_eq_true_iff.mp hfirst).2,
      mapStringsFields_eq_of_same f fs hfs]

end

/-- The keys of an object are not strings of it. -/
theorem keys_mapStringsFields (f : String → String) (fs : List (String × Json)) :
    (mapStringsFields f fs).map Prod.fst = fs.map Prod.fst := by
  induction fs with
  | nil => rfl
  | cons g fs ih => rw [mapStringsFields, List.map_cons, List.map_cons, ih]

/-- The items of an array that is read are those of the text. -/
theorem items_of_readsAs {items items' : List Json} (hitems : ∀ v ∈ items, v.Within d)
    (h : ReadsAs (d + 1) k (array items) (array items')) :
    List.Forall₂ (ReadsAs d (k + 1)) items items' := by
  obtain ⟨items'', hread⟩ := exists_readsAs_items items d (k + 1) hitems
  rw [array.inj (h.unique (readsAs_array hread))]
  exact hread

/-- So are the fields of an object, if the keys in the text are those of the object. -/
theorem fields_of_readsAs {fields fields' : List (String × Json)}
    (hfields : ∀ f ∈ fields, f.2.Within d)
    (hkeys : fields.map Prod.fst = fields'.map Prod.fst)
    (h : ReadsAs (d + 1) k (object fields) (object fields')) :
    List.Forall₂ (FieldReadsAs d (k + 1)) fields fields' := by
  obtain ⟨fields'', hread⟩ := exists_readsAs_fields fields d (k + 1) hfields
  have hlist : fields' = Bindings.ofList fields'' := object.inj (h.unique (readsAs_object hread))
  -- The keys of what is read ascend, so they do in the text, and nothing is put in order.
  have hkeys' : fields''.map Prod.fst = fields'.map Prod.fst := by
    refine Eq.trans ?_ hkeys
    refine List.forall₂_eq_eq_eq ▸ List.forall₂_map_left_iff.mpr (List.forall₂_map_right_iff.mpr ?_)
    exact hread.flip.imp fun _ _ hf => hf.1.symm
  have hsorted : Bindings.Sorted fields'' := by
    have hascending : (fields'.map Prod.fst).Pairwise (· < ·) := by
      rw [hlist, List.pairwise_map]
      exact Bindings.sorted_ofList fields''
    rw [← hkeys', List.pairwise_map] at hascending
    exact hascending
  rw [hlist, hsorted.ofList]
  exact hread

mutual

/-- **A value whose text is the same when its strings are replaced**, because it is read
back as the value, is what it was. -/
theorem mapStrings_eq_of_readsAs (f : String → String) : ∀ (v : Json) (d k : Nat), v.Within d →
    ReadsAs d k (v.mapStrings f) v → v.mapStrings f = v
  | null, _, _, _, _ => rfl
  | bool _, _, _, _, _ => rfl
  | integer _, _, _, _, _ => rfl
  | float _, _, _, _, _ => rfl
  | string text, _, _, _, h => (readsAs_string (f text)).unique h
  | array items, 0, _, hv, _ => absurd hv.2 (Nat.not_succ_le_zero _)
  | array items, d + 1, k, hv, h => by
    have hitems := within_array.mp (hv.mapStrings f)
    exact congrArg array (mapStringsItems_eq_of_readsAs f items d (k + 1) (within_array.mp hv)
      (items_of_readsAs hitems h))
  | object fields, 0, _, hv, _ => absurd hv.2 (Nat.not_succ_le_zero _)
  | object fields, d + 1, k, hv, h => by
    have hfields := within_object.mp (hv.mapStrings f)
    exact congrArg object (mapStringsFields_eq_of_readsAs f fields d (k + 1)
      (within_object.mp hv) (fields_of_readsAs hfields (keys_mapStringsFields f fields) h))

theorem mapStringsItems_eq_of_readsAs (f : String → String) : ∀ (vs : List Json) (d k : Nat),
    (∀ v ∈ vs, v.Within d) → List.Forall₂ (ReadsAs d k) (mapStringsItems f vs) vs →
      mapStringsItems f vs = vs
  | [], _, _, _, _ => rfl
  | v :: vs, d, k, hall, h => by
    obtain ⟨hv, hvs⟩ := List.forall_mem_cons.mp hall
    obtain ⟨hfirst, hrest⟩ := List.forall₂_cons.mp h
    rw [mapStringsItems, mapStrings_eq_of_readsAs f v d k hv hfirst,
      mapStringsItems_eq_of_readsAs f vs d k hvs hrest]

theorem mapStringsFields_eq_of_readsAs (f : String → String) :
    ∀ (fs : List (String × Json)) (d k : Nat), (∀ g ∈ fs, g.2.Within d) →
      List.Forall₂ (FieldReadsAs d k) (mapStringsFields f fs) fs → mapStringsFields f fs = fs
  | [], _, _, _, _ => rfl
  | (_, v) :: fs, d, k, hall, h => by
    obtain ⟨hv, hfs⟩ := List.forall_mem_cons.mp hall
    obtain ⟨hfirst, hrest⟩ := List.forall₂_cons.mp h
    rw [mapStringsFields, mapStrings_eq_of_readsAs f v d k hv hfirst.2,
      mapStringsFields_eq_of_readsAs f fs d k hfs hrest]

end

end Json

end ScopedState
