/-
`Proofs/Json/Doubles.lean` -- a written double is in range.

A double is not always read back as it was, but it is always read: the reader
refuses a literal only if its double would be infinite, and that never happens to
the text of a double. For the digits of a double make up a number that is at most
half a last place above it. The reader rounds it three times, and each time by a
part in `2^52` at most. That stays below the bound of the doubles for all of them
but the eight greatest, and these are read one by one.
-/
import ScopedState.Proofs.Decimal.Shortest
import ScopedState.Proofs.Json.Reading
set_option autoImplicit false

namespace ScopedState.Json

open Binary64 (Finite bound greatestExponent)

/-! ## 1. Scaling by a power of ten -/

namespace Literal

variable {negative : Bool} {n : Nat} {e : Int} {x : Binary64}

/-- The powers of ten up to `10^308` are rounded to doubles near them. -/
theorem powerOfTen_near {k : Nat} (hk : k ≤ 308) :
    (10 : ℚ) ^ k * (1 - 1 / 2 ^ 52) ≤ (Binary64.ofNat (Nat.pow 10 k)).value ∧
      (Binary64.ofNat (Nat.pow 10 k)).value ≤ 10 ^ k * (1 + 1 / 2 ^ 52) := by
  have hcast : ((Nat.pow 10 k : Nat) : ℚ) = 10 ^ k := by exact_mod_cast rfl
  have hgreat := Binary64.two_zpow_of_nonneg (e := greatestExponent) (by decide)
  have hlt : Nat.pow 10 k < (2 ^ 53 - 1) * Nat.pow 2 greatestExponent.toNat := by
    refine Nat.lt_of_le_of_lt (Nat.pow_le_pow_right (by omega) hk) ?_
    decide +kernel
  have hbound : ((Nat.pow 10 k : Nat) : ℚ) < bound := by
    have hq : ((Nat.pow 10 k : Nat) : ℚ)
        < ((2 ^ 53 - 1 : Nat) : ℚ) * (Nat.pow 2 greatestExponent.toNat : Nat) := by
      exact_mod_cast hlt
    rw [← hgreat] at hq
    refine hq.trans ?_
    rw [bound]
    refine mul_lt_mul_of_pos_right ?_ (zpow_pos (by norm_num) _)
    norm_num
  have hnear := Binary64.ofNat_near (n := Nat.pow 10 k) (Nat.pow_pos (by omega)) hbound
  rwa [hcast] at hnear

/-- A power of ten is at least a half, and more than two unless it is one. -/
theorem le_powerOfTen {k : Nat} (hk : k ≤ 308) :
    1 / 2 ≤ (Binary64.ofNat (Nat.pow 10 k)).value ∧
      (k ≠ 0 → 2 ≤ (Binary64.ofNat (Nat.pow 10 k)).value) := by
  have hone : (1 : ℚ) ≤ 10 ^ k := one_le_pow₀ (by norm_num)
  have hlow := (powerOfTen_near hk).1
  refine ⟨by linarith, fun hne => ?_⟩
  have hten : (10 : ℚ) ≤ 10 ^ k := le_self_pow₀ (by norm_num) hne
  linarith

theorem two_le_greatPower : 2 ≤ greatPower.value := by
  -- Said of any exponent first, so that the power need not be evaluated.
  have hpower : ∀ k ≤ 308, k ≠ 0 → ∀ x, x = Binary64.ofNat (Nat.pow 10 k) → 2 ≤ x.value := by
    rintro k hk hne x rfl
    exact (le_powerOfTen hk).2 hne
  exact hpower 308 (Nat.le_refl 308) (by decide) greatPower rfl

/-- **Scaling down** always gives a double. -/
theorem scaleBy_down (steps : Nat) {x : Binary64} {e : Int} (he : e ≤ 0) (hx : x.value ≤ 2 ^ 70) :
    (scaleBy steps x e).isSome = true := by
  have hnonneg := x.value_nonneg
  induction steps generalizing x e with
  | zero => rfl
  | succ steps ih =>
    have hquotient : ∀ {y : Binary64}, 1 / 2 ≤ y.value → x.value / y.value ≤ 2 ^ 71 := by
      intro y hy
      rw [div_le_iff₀ (by linarith)]
      nlinarith
    rw [scaleBy]
    split
    · rename_i hsmall
      have hpower := (le_powerOfTen hsmall).1
      split
      · -- The exponent is zero.
        have hzero : e.natAbs = 0 := by omega
        rw [hzero]
        have hone := (powerOfTen_near (Nat.zero_le 308)).2
        refine Binary64.mul?_isSome (Binary64.lt_bound_of_small ?_)
        nlinarith
      · refine Binary64.div?_isSome (by linarith) (Binary64.lt_bound_of_small ?_)
        have hle := hquotient hpower
        linarith
    · split
      · rfl
      · split
        · omega
        · -- What is left is smaller than before.
          have hgreat := two_le_greatPower
          have hpart : x.value / greatPower.value ≤ 2 ^ 69 := by
            rw [div_le_iff₀ (by linarith)]
            nlinarith
          obtain ⟨y, hy⟩ := Option.isSome_iff_exists.mp
            (Binary64.div?_isSome (x := x) (y := greatPower) (by linarith)
              (Binary64.lt_bound_of_small (by linarith)))
          have hvalue := Binary64.value_div?_le (by linarith) hy
          rw [hy, Option.bind_some]
          refine ih (by omega) ?_ y.value_nonneg
          linarith

/-- Below the bound there are at most 308 digits behind the first. -/
theorem exponent_le (hn : 1 ≤ n) (hvalue : (n : ℚ) * 10 ^ e < bound) : e ≤ 308 := by
  refine Int.not_lt.mp fun hlt => ?_
  have hgreat := Binary64.two_zpow_of_nonneg (e := greatestExponent) (by decide)
  have hten := Shortest.ten_zpow_of_nonneg (p := 309) (by decide)
  have hq : ((2 ^ 53 * Nat.pow 2 greatestExponent.toNat : Nat) : ℚ)
      ≤ (Nat.pow 10 (309 : Int).toNat : Nat) := Nat.cast_le.mpr (by decide +kernel)
  rw [Nat.cast_mul, ← hgreat, ← hten] at hq
  have hpow : (10 : ℚ) ^ (309 : Int) ≤ 10 ^ e := zpow_le_zpow_right₀ (by norm_num) (by omega)
  have hone : (1 : ℚ) ≤ n := by exact_mod_cast hn
  have hpos : (0 : ℚ) < 2 ^ greatestExponent := zpow_pos (by norm_num) _
  have hle : (10 : ℚ) ^ e ≤ n * 10 ^ e :=
    le_mul_of_one_le_left (zpow_pos (by norm_num) e).le hone
  have hall := lt_of_le_of_lt (hq.trans (hpow.trans hle)) hvalue
  rw [bound] at hall
  push_cast at hall
  linarith only [hall, hpos]

/-- **A number is read as a double** if it is a little below the bound. -/
theorem double?_isSome (hn : n ≤ wordLimit)
    (hvalue : (n : ℚ) * 10 ^ e ≤ (2 ^ 53 - 8) * 2 ^ greatestExponent) :
    ∃ x, double? negative n e = some (.float x) := by
  suffices hscaled : (scaleBy 4 (Binary64.ofNat n) e).isSome = true by
    obtain ⟨x, hx⟩ := Option.isSome_iff_exists.mp hscaled
    exact ⟨x.withSign negative, by rw [double?, hx, Option.map_some]⟩
  have hgreat : (0 : ℚ) < 2 ^ greatestExponent := zpow_pos (by norm_num) _
  rcases Nat.eq_zero_or_pos n with rfl | hpos
  · -- Nothing is nothing, at whatever scale.
    have hzero : (Binary64.ofNat 0).significand = 0 := rfl
    have hvalue : (Binary64.ofNat 0).value = 0 := by
      rw [Binary64.value, hzero, Nat.cast_zero, zero_mul]
    by_cases he : e ≤ 0
    · exact scaleBy_down 4 he (by rw [hvalue]; positivity)
    · rw [scaleBy]
      split
      · rw [if_pos (by omega)]
        refine Binary64.mul?_isSome (Binary64.lt_bound_of_small ?_)
        rw [hvalue, zero_mul]
        positivity
      · rfl
  · have hone : (1 : ℚ) ≤ n := by exact_mod_cast hpos
    have hword : (n : ℚ) ≤ 2 ^ 64 := by
      have hle : n ≤ 2 ^ 64 := Nat.le_trans hn (by decide)
      exact_mod_cast hle
    have hnear := Binary64.ofNat_near hpos (Binary64.lt_bound_of_small (by linarith))
    by_cases he : e ≤ 0
    · refine scaleBy_down 4 he ?_
      linarith [hnear.2]
    · have hlimit : e ≤ 308 := by
        refine exponent_le hpos (lt_of_le_of_lt hvalue ?_)
        rw [bound]
        refine mul_lt_mul_of_pos_right ?_ hgreat
        norm_num
      have hpower := powerOfTen_near (k := e.natAbs) (by omega)
      have hcast : (10 : ℚ) ^ e.natAbs = 10 ^ e := by
        have habs : (e.natAbs : Int) = e := Int.natAbs_of_nonneg (by omega)
        rw [← zpow_natCast, habs]
      have hten : (0 : ℚ) < 10 ^ e := zpow_pos (by norm_num) e
      rw [hcast] at hpower
      rw [scaleBy, if_pos (by omega), if_pos (by omega)]
      refine Binary64.mul?_isSome ?_
      -- Each factor is near, and so is the product.
      calc (Binary64.ofNat n).value * (Binary64.ofNat (Nat.pow 10 e.natAbs)).value
          ≤ n * (1 + 1 / 2 ^ 52) * (10 ^ e * (1 + 1 / 2 ^ 52)) :=
            mul_le_mul hnear.2 hpower.2 (Binary64.value_nonneg _) (by positivity)
        _ = n * 10 ^ e * (1 + 1 / 2 ^ 52) ^ 2 := by ring
        _ ≤ (2 ^ 53 - 8) * 2 ^ greatestExponent * (1 + 1 / 2 ^ 52) ^ 2 :=
            mul_le_mul_of_nonneg_right hvalue (by positivity)
        _ = (2 ^ 53 - 8) * (1 + 1 / 2 ^ 52) ^ 2 * 2 ^ greatestExponent := by ring
        _ < bound := by
            rw [bound]
            refine mul_lt_mul_of_pos_right ?_ hgreat
            norm_num

/-- Digits that are not scaled up are read as a double, however far down they go. -/
theorem double?_isSome_of_nonpos (hn : n ≤ wordLimit) (he : e ≤ 0) :
    ∃ x, double? negative n e = some (.float x) := by
  have hword : (n : ℚ) ≤ 2 ^ 64 := by
    have hle : n ≤ 2 ^ 64 := Nat.le_trans hn (by decide)
    exact_mod_cast hle
  have hone : (10 : ℚ) ^ e ≤ 1 := zpow_le_one_of_nonpos₀ (by norm_num) he
  have hgreat : (2 : ℚ) ^ (20 : Int) ≤ 2 ^ greatestExponent :=
    zpow_le_zpow_right₀ (by norm_num) (by decide)
  have htwenty : (2 : ℚ) ^ (20 : Int) = 2 ^ 20 := zpow_natCast 2 20
  refine double?_isSome hn ?_
  calc (n : ℚ) * 10 ^ e ≤ n * 1 := mul_le_mul_of_nonneg_left hone (Nat.cast_nonneg n)
    _ = n := mul_one _
    _ ≤ 2 ^ 64 := hword
    _ ≤ (2 ^ 53 - 8) * 2 ^ (20 : Int) := by rw [htwenty]; norm_num
    _ ≤ (2 ^ 53 - 8) * 2 ^ greatestExponent := mul_le_mul_of_nonneg_left hgreat (by norm_num)

/-- Collected digits with the exponent that is written behind them. -/
def scaled (negative : Bool) (n : Nat) (e : Int) : Option (Bool × List Nat) → Option Json
  | none => double? negative n e
  | some (down, digits) =>
    let (k, excess) := collect exponentLimit 0 digits
    if excess = 0 then double? negative n (if down then e - k else e + k)
    else if n ≠ 0 && !down then none
    else some (.float ⟨negative, 0, Binary64.leastExponent⟩)

/-- **A literal with a fraction or an exponent** is read as its digits, scaled. -/
theorem value?_eq_scaled {l : Literal} (hdouble : ¬ (l.fraction = none ∧ l.exponent = none))
    {whole n spare dropped : Nat} (hwhole : collect wordLimit 0 l.whole = (whole, spare))
    (hfraction : collect wordLimit whole (l.fraction.getD []) = (n, dropped)) :
    l.value? = scaled l.negative n
      ((spare : Int) - (((l.fraction.getD []).length - dropped : Nat) : Int)) l.exponent := by
  rw [value?, hwhole]
  simp only []
  split
  · rename_i hno hno'
    exact absurd ⟨hno, hno'⟩ hdouble
  · rw [hfraction]
    cases l.exponent with
    | none => rfl
    | some exponent => rfl

/-- A negative exponent gives a double at any rate. -/
theorem scaled_isSome_of_down (hn : n ≤ wordLimit) (he : e ≤ 0) (digits : List Nat) :
    ∃ x, scaled negative n e (some (true, digits)) = some (.float x) := by
  rw [scaled]
  generalize collect exponentLimit 0 digits = collected
  simp only [if_true, Bool.not_true, Bool.and_false, Bool.false_eq_true, if_false]
  split
  · exact double?_isSome_of_nonpos hn (by omega)
  · exact ⟨_, rfl⟩

/-! ## 2. Digits that are left over -/

variable {limit : Nat} {cs : List Char}

/-- The numbers that digits stand for. -/
def digitValues (cs : List Char) : List Nat := cs.map fun c => c.toNat - 48

/-- Digits make a number greater, each by a factor of ten at least. -/
theorem ofDigitChars_bounds (hcs : ∀ c ∈ cs, c.isDigit = true) (n : Nat) :
    n * 10 ^ cs.length ≤ Nat.ofDigitChars 10 cs n ∧
      Nat.ofDigitChars 10 cs n < (n + 1) * 10 ^ cs.length := by
  induction cs generalizing n with
  | nil => exact ⟨Nat.le_of_eq (by simp), by simp⟩
  | cons c cs ih =>
    have hzero : '0'.toNat = 48 := rfl
    have hnine : '9'.toNat = 57 := rfl
    have hc := Char.isDigit_iff_toNat.mp (hcs c List.mem_cons_self)
    obtain ⟨hlow, hhigh⟩ := ih (fun c hc => hcs c (List.mem_cons_of_mem _ hc))
      (10 * n + (c.toNat - 48))
    rw [Nat.ofDigitChars_cons, hzero, List.length_cons, Nat.pow_succ]
    have hpow : 0 < 10 ^ cs.length := Nat.pow_pos (by omega)
    constructor
    · refine Nat.le_trans ?_ hlow
      calc n * (10 ^ cs.length * 10) = 10 * n * 10 ^ cs.length := by ring
        _ ≤ (10 * n + (c.toNat - 48)) * 10 ^ cs.length := Nat.mul_le_mul_right _ (by omega)
    · refine Nat.lt_of_lt_of_le hhigh ?_
      calc (10 * n + (c.toNat - 48) + 1) * 10 ^ cs.length
          ≤ (10 * (n + 1)) * 10 ^ cs.length := Nat.mul_le_mul_right _ (by omega)
        _ = (n + 1) * (10 ^ cs.length * 10) := by ring

/-- **Digits that are collected** fit, and those left over only add to them. -/
theorem collect_spec (hcs : ∀ c ∈ cs, c.isDigit = true) {n : Nat} (hn : n ≤ limit) :
    (collect limit n (digitValues cs)).1 ≤ limit ∧
      (collect limit n (digitValues cs)).2 ≤ cs.length ∧
      (collect limit n (digitValues cs)).1 * 10 ^ (collect limit n (digitValues cs)).2
        ≤ Nat.ofDigitChars 10 cs n := by
  induction cs generalizing n with
  | nil => exact ⟨hn, Nat.le_refl _, Nat.le_of_eq (by simp [digitValues, collect])⟩
  | cons c cs ih =>
    have hzero : '0'.toNat = 48 := rfl
    have hrest := fun c hc => hcs c (List.mem_cons_of_mem _ hc)
    rw [digitValues, List.map_cons, collect]
    split
    · refine ⟨hn, Nat.le_of_eq (by simp), ?_⟩
      have hlow := (ofDigitChars_bounds hcs n).1
      simpa using hlow
    · rename_i hfits
      obtain ⟨hle, hlength, hvalue⟩ := ih hrest (Nat.not_lt.mp hfits)
      refine ⟨hle, Nat.le_succ_of_le hlength, ?_⟩
      rw [Nat.ofDigitChars_cons, hzero, Nat.mul_comm 10 n]
      exact hvalue

/-- Digits of a number within the limit are all collected. -/
theorem collect_all {n : Nat} (h : Nat.ofDigitChars 10 cs n ≤ limit) :
    collect limit n (digitValues cs) = (Nat.ofDigitChars 10 cs n, 0) := collect_eq h

/-! ## 3. The value of a decimal -/

/-- A decimal as it is written: the digits in front of the point and those behind it,
and an exponent. -/
structure Parts where
  whole : List Char
  fraction : List Char
  exponent : Option Int

namespace Parts

/-- The text of an exponent. -/
def exponentText : Option Int → List Char
  | none => []
  | some e => 'e' :: (if e < 0 then '-' else '+') :: natDigits e.natAbs

/-- The text of a decimal. -/
def text (p : Parts) : List Char :=
  p.whole ++ ((if p.fraction = [] then [] else '.' :: p.fraction) ++ exponentText p.exponent)

/-- The digits of a decimal, part by part. -/
def literal (p : Parts) (negative : Bool) : Literal :=
  { negative
    whole := digitValues p.whole
    fraction := if p.fraction = [] then none else some (digitValues p.fraction)
    exponent := p.exponent.map fun e => (decide (e < 0), digitValues (natDigits e.natAbs)) }

/-- The value of a decimal. -/
def value (p : Parts) : ℚ :=
  Nat.ofDigitChars 10 (p.whole ++ p.fraction) 0
    * 10 ^ (p.exponent.getD 0 - (p.fraction.length : Int))

/-- A decimal that is written as a double is: it has a fraction or an exponent, and
not too many digits in front of the point. -/
structure Proper (p : Parts) : Prop where
  whole : p.whole ≠ []
  lead : (digitValues p.whole).head? ≠ some 0 ∨ p.whole = ['0']
  digits : ∀ c ∈ p.whole ++ p.fraction, c.isDigit = true
  fits : Nat.ofDigitChars 10 p.whole 0 ≤ wordLimit
  double : p.fraction ≠ [] ∨ p.exponent ≠ none

variable {p : Parts}

/-- The digits that are collected of a decimal, and how many of the fraction are left
over. -/
theorem Proper.collected (h : p.Proper) :
    ∃ n dropped, collect wordLimit 0 (digitValues p.whole)
        = (Nat.ofDigitChars 10 p.whole 0, 0) ∧
      collect wordLimit (Nat.ofDigitChars 10 p.whole 0) (digitValues p.fraction) = (n, dropped) ∧
      n ≤ wordLimit ∧ dropped ≤ p.fraction.length ∧
      (n : ℚ) * 10 ^ (p.exponent.getD 0 - ((p.fraction.length - dropped : Nat) : Int)) ≤ p.value := by
  have hdigits : ∀ c ∈ p.fraction, c.isDigit = true :=
    fun c hc => h.digits c (List.mem_append_right _ hc)
  obtain ⟨hle, hlength, hvalue⟩ := collect_spec hdigits h.fits
  refine ⟨_, _, collect_all h.fits, rfl, hle, hlength, ?_⟩
  rw [Parts.value, Nat.ofDigitChars_append]
  generalize (collect wordLimit (Nat.ofDigitChars 10 p.whole 0) (digitValues p.fraction)).1 = n
    at hvalue hle
  generalize (collect wordLimit (Nat.ofDigitChars 10 p.whole 0) (digitValues p.fraction)).2 = dropped
    at hvalue hlength
  have hexponent : p.exponent.getD 0 - ((p.fraction.length - dropped : Nat) : Int)
      = (dropped : Int) + (p.exponent.getD 0 - p.fraction.length) := by omega
  have hq : (n : ℚ) * 10 ^ dropped
      ≤ (Nat.ofDigitChars 10 p.fraction (Nat.ofDigitChars 10 p.whole 0) : Nat) := by
    exact_mod_cast hvalue
  rw [hexponent, zpow_add₀ (by norm_num), zpow_natCast, ← mul_assoc]
  exact mul_le_mul_of_nonneg_right hq (zpow_pos (by norm_num) _).le

/-- The digits behind the point, if there is one. -/
theorem getD_literal_fraction (p : Parts) (negative : Bool) :
    (p.literal negative).fraction.getD [] = digitValues p.fraction := by
  rw [literal]
  by_cases hnil : p.fraction = []
  · rw [hnil]
    rfl
  · simp only [if_neg hnil, Option.getD_some]

/-- A decimal is not written as a whole number is. -/
theorem Proper.not_whole (h : p.Proper) (negative : Bool) :
    ¬ ((p.literal negative).fraction = none ∧ (p.literal negative).exponent = none) := by
  rintro ⟨hno, hno'⟩
  unfold literal at hno hno'
  rcases h.double with hne | hne
  · rw [if_neg hne] at hno
    cases hno
  · exact hne (Option.map_eq_none_iff.mp hno')

/-- An exponent that is written up to the limit is read as it is. -/
theorem scaled_of_up {negative : Bool} {n : Nat} {e k : Int} (hk : 0 ≤ k)
    (hlimit : k ≤ exponentLimit) :
    scaled negative n e (some (decide (k < 0), digitValues (natDigits k.natAbs)))
      = double? negative n (e + k) := by
  have hcollect : collect exponentLimit 0 (digitValues (natDigits k.natAbs)) = (k.natAbs, 0) :=
    collect_natDigits (by omega)
  have habs : (k.natAbs : Int) = k := Int.natAbs_of_nonneg hk
  rw [decide_eq_false (Int.not_lt.mpr hk), scaled, hcollect]
  simp only [if_true, Bool.false_eq_true, if_false, habs]

/-- **The value of a literal**, if its double is in range. -/
theorem Proper.value?_isSome (h : p.Proper) (negative : Bool)
    (hvalue : p.value ≤ (2 ^ 53 - 8) * 2 ^ greatestExponent)
    (hexponent : ∀ e, p.exponent = some e → e ≤ exponentLimit) :
    ∃ x, (p.literal negative).value? = some (.float x) := by
  obtain ⟨n, dropped, hwhole, hfraction, hn, hdropped, hle⟩ := h.collected
  have hrange := hle.trans hvalue
  have hdigits := p.getD_literal_fraction negative
  have hlength : (digitValues p.fraction).length = p.fraction.length := List.length_map _
  rw [← hdigits] at hfraction
  rw [value?_eq_scaled (h.not_whole negative) hwhole hfraction, hdigits, hlength, literal]
  cases hexp : p.exponent with
  | none =>
    rw [hexp] at hrange
    exact double?_isSome hn hrange
  | some e =>
    rw [hexp, Option.getD_some] at hrange
    rw [Option.map_some]
    rcases lt_or_ge e 0 with hneg | hpos
    · -- However far down the exponent goes, what is read is not above the digits.
      rw [decide_eq_true hneg]
      exact scaled_isSome_of_down hn (by omega) _
    · have hsum : ((0 : Nat) : Int) - ((p.fraction.length - dropped : Nat) : Int) + e
          = e - ((p.fraction.length - dropped : Nat) : Int) := by omega
      rw [scaled_of_up hpos (hexponent e hexp), hsum]
      exact double?_isSome hn hrange

/-! ## 4. Reading a decimal -/

variable {rest : List Char}

theorem takeDigits_append {cs : List Char} (hcs : ∀ c ∈ cs, c.isDigit = true)
    (hrest : rest.head?.all (fun c => !c.isDigit) = true) :
    takeDigits (cs ++ rest) = (digitValues cs, rest) := by
  have hstop : rest.takeWhile Char.isDigit = [] ∧ rest.dropWhile Char.isDigit = rest := by
    cases rest with
    | nil => exact ⟨rfl, rfl⟩
    | cons c rest =>
      have hc : c.isDigit = false := by simpa using hrest
      rw [List.takeWhile_cons, List.dropWhile_cons, hc]
      exact ⟨rfl, rfl⟩
  rw [takeDigits, List.takeWhile_append_of_pos hcs, List.dropWhile_append_of_pos hcs, hstop.1,
    hstop.2, List.append_nil]
  rfl

theorem digitValues_ne_nil {cs : List Char} (h : cs ≠ []) : digitValues cs ≠ [] := by
  rw [digitValues, ne_eq, List.map_eq_nil_iff]
  exact h

/-- No digit ends a value. -/
theorem head_of_atEnd (h : AtEnd rest) : rest.head?.all (fun c => !c.isDigit) = true := by
  rcases h.cases with rfl | ⟨t, rfl | rfl⟩ <;> rfl

/-- What follows the digits of a fraction. -/
theorem readExponent_text (exponent : Option Int) (h : AtEnd rest) :
    (exponentText exponent ++ rest).head?.all (fun c => !c.isDigit) = true ∧
      readExponent (exponentText exponent ++ rest)
        = .ok (exponent.map fun e => (decide (e < 0), digitValues (natDigits e.natAbs)), rest) := by
  cases exponent with
  | none =>
    refine ⟨head_of_atEnd h, ?_⟩
    rcases h.cases with rfl | ⟨t, rfl | rfl⟩ <;> rfl
  | some e =>
    have hall : ∀ c ∈ natDigits e.natAbs, c.isDigit = true :=
      fun c hc => Nat.isDigit_of_mem_toDigits (by omega) (by omega) hc
    have hdigits := takeDigits_append hall (head_of_atEnd h)
    have hne : digitValues (natDigits e.natAbs) ≠ [] := digitValues_ne_nil Nat.toDigits_ne_nil
    refine ⟨rfl, ?_⟩
    have hletter : (decide ('e' = 'e') || decide ('e' = 'E')) = true := rfl
    rw [exponentText, List.cons_append, readExponent, if_pos hletter]
    by_cases hneg : e < 0
    · rw [if_pos hneg, Option.map_some, decide_eq_true hneg, List.cons_append]
      simp only [readSign, hdigits]
    · rw [if_neg hneg, Option.map_some, decide_eq_false hneg, List.cons_append]
      simp only [readSign, hdigits]

/-- What follows the digits in front of the point. -/
theorem readFraction_text (h : p.Proper) (hrest : AtEnd rest) :
    (((if p.fraction = [] then [] else '.' :: p.fraction) ++ exponentText p.exponent)
        ++ rest).head?.all (fun c => !c.isDigit) = true ∧
      readFraction (((if p.fraction = [] then [] else '.' :: p.fraction)
          ++ exponentText p.exponent) ++ rest)
        = .ok (if p.fraction = [] then none else some (digitValues p.fraction),
            exponentText p.exponent ++ rest) := by
  obtain ⟨hhead, _⟩ := readExponent_text p.exponent hrest
  by_cases hnil : p.fraction = []
  · rw [if_pos hnil, if_pos hnil, List.nil_append]
    refine ⟨hhead, ?_⟩
    cases hexponent : p.exponent with
    | none => rcases hrest.cases with rfl | ⟨t, rfl | rfl⟩ <;> rfl
    | some e => rfl
  · have hall : ∀ c ∈ p.fraction, c.isDigit = true :=
      fun c hc => h.digits c (List.mem_append_right _ hc)
    have hdigits := takeDigits_append hall hhead
    rw [if_neg hnil, if_neg hnil, List.cons_append, List.cons_append, List.append_assoc]
    refine ⟨rfl, ?_⟩
    rw [readFraction, hdigits]
    cases hvalues : digitValues p.fraction with
    | nil => exact absurd hvalues (digitValues_ne_nil hnil)
    | cons d ds => rfl

/-- **A decimal is read** as the value of its digits, up to what follows it. -/
theorem readNumber_text (h : p.Proper) (hrest : AtEnd rest) {negative : Bool} {v : Json}
    (hvalue : (p.literal negative).value? = some v) :
    readNumber negative (p.text ++ rest) = .ok (v, rest) := by
  obtain ⟨hhead, hfraction⟩ := readFraction_text h hrest
  obtain ⟨_, hexponent⟩ := readExponent_text p.exponent hrest
  have hall : ∀ c ∈ p.whole, c.isDigit = true :=
    fun c hc => h.digits c (List.mem_append_left _ hc)
  have hwhole := takeDigits_append hall hhead
  have hlead : ¬ (digitValues p.whole = [] ||
      ((digitValues p.whole).head? = some 0 && digitValues p.whole ≠ [0])) = true := by
    simp only [Bool.or_eq_true, Bool.and_eq_true, decide_eq_true_eq, not_or, not_and]
    refine ⟨digitValues_ne_nil h.whole, fun hzero hne => ?_⟩
    rcases h.lead with hlead | hlead
    · exact hlead hzero
    · exact hne (by rw [hlead]; rfl)
  rw [text, List.append_assoc]
  simp only [readNumber, hwhole, bind, Except.bind, pure, Except.pure]
  rw [if_neg hlead]
  simp only [hfraction, hexponent]
  rw [literal] at hvalue
  simp only [hvalue]

/-! ## 5. The decimal of a double -/

variable {digits : List Char} {point : Int}

/-- The parts of a decimal whose point is `point` places behind the first digit, as
they are written. -/
def place (digits : List Char) (point : Int) : Parts :=
  let count : Int := digits.length
  if count ≤ point && point ≤ 16 then
    ⟨digits ++ List.replicate (point - count).toNat '0', ['0'], none⟩
  else if 0 < point && point ≤ 16 then
    ⟨digits.take point.toNat, digits.drop point.toNat, none⟩
  else if -5 < point && point ≤ 0 then
    ⟨['0'], List.replicate (-point).toNat '0' ++ digits, none⟩
  else ⟨digits.take 1, digits.drop 1, some (point - 1)⟩

/-- **The text of a double** is that of its parts. -/
theorem placePoint_eq (hne : digits ≠ []) (point : Int) :
    placePoint digits point = (place digits point).text := by
  unfold placePoint place
  simp only []
  split
  · simp [text, exponentText]
  · rename_i hwide
    split
    · rename_i hinside
      have hleft : digits.drop point.toNat ≠ [] := by
        simp only [Bool.and_eq_true, decide_eq_true_eq, not_and] at hwide hinside
        rw [ne_eq, List.drop_eq_nil_iff]
        omega
      simp [text, exponentText, hleft]
    · split
      · simp [text, exponentText, hne]
      · cases digits with
        | nil => exact absurd rfl hne
        | cons d digits =>
          cases digits with
          | nil => simp [text, exponentText]
          | cons d' digits => simp [text, exponentText]

theorem ofDigitChars_zeros (n k : Nat) :
    Nat.ofDigitChars 10 (List.replicate k '0') n = n * 10 ^ k := by
  induction k generalizing n with
  | zero => simp
  | succ k ih =>
    rw [List.replicate_succ, Nat.ofDigitChars_cons, ih, Nat.pow_succ]
    simp only [Nat.sub_self, Nat.add_zero]
    ring

/-- **The value of the parts** is that of the digits. -/
theorem value_place (hne : digits ≠ []) (point : Int) :
    (place digits point).value
      = Nat.ofDigitChars 10 digits 0 * 10 ^ (point - (digits.length : Int)) := by
  unfold place
  simp only []
  split
  · rename_i hwide
    simp only [Bool.and_eq_true, decide_eq_true_eq] at hwide
    have hexponent : point - (digits.length : Int) = ((point - digits.length).toNat : Nat) := by
      omega
    rw [value, Nat.ofDigitChars_append, Nat.ofDigitChars_append, ofDigitChars_zeros, hexponent,
      Int.toNat_natCast]
    have hlast : ∀ n, Nat.ofDigitChars 10 ['0'] n = n * 10 := fun n => ofDigitChars_zeros n 1
    rw [hlast, zpow_natCast]
    push_cast
    simp only [Option.getD_none, List.length_singleton, Nat.cast_one, zero_sub, zpow_neg, zpow_one]
    field_simp
  · rename_i hwide
    split
    · rename_i hinside
      simp only [Bool.and_eq_true, decide_eq_true_eq, not_and] at hwide hinside
      rw [value, List.take_append_drop, Option.getD_none, List.length_drop]
      congr 2
      omega
    · split
      · rename_i hbelow
        simp only [Bool.and_eq_true, decide_eq_true_eq] at hbelow
        have hzeros : Nat.ofDigitChars 10 (['0'] ++ (List.replicate (-point).toNat '0' ++ digits)) 0
            = Nat.ofDigitChars 10 digits 0 := by
          rw [Nat.ofDigitChars_append, Nat.ofDigitChars_append, ofDigitChars_zeros]
          have hfirst : Nat.ofDigitChars 10 ['0'] 0 = 0 := rfl
          rw [hfirst, Nat.zero_mul]
        rw [value, hzeros, Option.getD_none, List.length_append, List.length_replicate]
        congr 2
        omega
      · have hlength : (digits.drop 1).length + 1 = digits.length := by
          rw [List.length_drop]
          have hpos := List.length_pos_iff.mpr hne
          omega
        rw [value, List.take_append_drop, Option.getD_some]
        congr 2
        dsimp only
        omega

theorem isDigit_of_zeros (k : Nat) : ∀ c ∈ List.replicate k '0', c.isDigit = true := by
  intro c hc
  rw [List.eq_of_mem_replicate hc]
  rfl

/-- Sixteen digits fit. -/
theorem ofDigitChars_fits {cs : List Char} (hcs : ∀ c ∈ cs, c.isDigit = true)
    (hlength : cs.length ≤ 16) : Nat.ofDigitChars 10 cs 0 ≤ wordLimit := by
  have hlt := (ofDigitChars_bounds hcs 0).2
  have hpow : 10 ^ cs.length ≤ 10 ^ 16 := Nat.pow_le_pow_right (by omega) hlength
  have hword : (10 : Nat) ^ 16 ≤ wordLimit := by decide
  omega

/-- **Digits that are cut** behind one of the first sixteen. -/
theorem proper_cut (hdigits : ∀ c ∈ digits, c.isDigit = true) (hne : digits ≠ [])
    (hlead : (digitValues digits).head? ≠ some 0) {k : Nat} (hk : 0 < k) (hfits : k ≤ 16)
    {exponent : Option Int} (hdouble : digits.drop k ≠ [] ∨ exponent ≠ none) :
    Proper ⟨digits.take k, digits.drop k, exponent⟩ := by
  refine ⟨?_, Or.inl ?_, fun c hc => ?_, ?_, hdouble⟩
  · rw [ne_eq, List.take_eq_nil_iff, not_or]
    exact ⟨by omega, hne⟩
  · cases digits with
    | nil => exact absurd rfl hne
    | cons d digits =>
      obtain ⟨k, rfl⟩ := Nat.exists_eq_succ_of_ne_zero (Nat.ne_of_gt hk)
      exact hlead
  · rw [List.take_append_drop] at hc
    exact hdigits c hc
  · refine ofDigitChars_fits (fun c hc => hdigits c (List.mem_of_mem_take hc)) ?_
    rw [List.length_take]
    omega

/-- **The parts of a double are proper.** -/
theorem proper_place (hdigits : ∀ c ∈ digits, c.isDigit = true) (hne : digits ≠ [])
    (hlead : (digitValues digits).head? ≠ some 0) (point : Int) : (place digits point).Proper := by
  unfold place
  simp only []
  split
  · -- Zeros are put behind the digits, up to the point.
    rename_i hwide
    simp only [Bool.and_eq_true, decide_eq_true_eq] at hwide
    have hall : ∀ c ∈ digits ++ List.replicate (point - digits.length).toNat '0',
        c.isDigit = true := fun c hc =>
      (List.mem_append.mp hc).elim (hdigits c) (isDigit_of_zeros _ c)
    refine ⟨by simp [hne], Or.inl ?_, fun c hc => ?_, ofDigitChars_fits hall ?_,
      Or.inl (List.cons_ne_nil _ _)⟩
    · cases digits with
      | nil => exact absurd rfl hne
      | cons d digits => exact hlead
    · rcases List.mem_append.mp hc with hc | hc
      · exact hall c hc
      · exact isDigit_of_zeros 1 c hc
    · rw [List.length_append, List.length_replicate]
      omega
  · rename_i hwide
    split
    · -- The point is among the digits.
      rename_i hinside
      simp only [Bool.and_eq_true, decide_eq_true_eq, not_and] at hwide hinside
      refine proper_cut hdigits hne hlead (by omega) (by omega) (Or.inl ?_)
      rw [ne_eq, List.drop_eq_nil_iff]
      omega
    · split
      · -- Zeros are put in front of the digits, behind the point.
        refine ⟨List.cons_ne_nil _ _, Or.inr rfl, fun c hc => ?_, Nat.zero_le _,
          Or.inl (by simp [hne])⟩
        rcases List.mem_append.mp hc with hc | hc
        · exact isDigit_of_zeros 1 c hc
        · exact (List.mem_append.mp hc).elim (isDigit_of_zeros _ c) (hdigits c)
      · exact proper_cut hdigits hne hlead Nat.one_pos (by omega)
          (Or.inr (Option.some_ne_none _))

/-- An exponent that is written is small, if it is that of a number below the
bound. -/
theorem exponent_place (hdigits : ∀ c ∈ digits, c.isDigit = true) (hne : digits ≠ [])
    (hlead : (digitValues digits).head? ≠ some 0)
    (hvalue : (Nat.ofDigitChars 10 digits 0 : ℚ) * 10 ^ (point - (digits.length : Int)) < bound) :
    ∀ e, (place digits point).exponent = some e → e ≤ exponentLimit := by
  intro e he
  have hpoint : e = point - 1 := by
    unfold place at he
    simp only [] at he
    split at he
    · cases he
    · split at he
      · cases he
      · split at he
        · cases he
        · exact (Option.some.inj he).symm
  -- The first digit alone makes the number as great as that power of ten.
  have hgreat : 10 ^ (digits.length - 1) ≤ Nat.ofDigitChars 10 digits 0 := by
    cases digits with
    | nil => exact absurd rfl hne
    | cons d digits =>
      have hrest : ∀ c ∈ digits, c.isDigit = true :=
        fun c hc => hdigits c (List.mem_cons_of_mem _ hc)
      have hlow := (ofDigitChars_bounds hrest (10 * 0 + (d.toNat - '0'.toNat))).1
      rw [Nat.ofDigitChars_cons]
      refine Nat.le_trans ?_ hlow
      have hfirst : d.toNat - 48 ≠ 0 := fun hzero => hlead (by rw [digitValues, List.map_cons, hzero]; rfl)
      have hzero : '0'.toNat = 48 := rfl
      rw [hzero, List.length_cons, Nat.add_sub_cancel]
      exact Nat.le_mul_of_pos_left _ (by omega)
  have hq : (10 : ℚ) ^ (digits.length - 1) ≤ Nat.ofDigitChars 10 digits 0 := by
    exact_mod_cast hgreat
  have hpos := List.length_pos_iff.mpr hne
  have hsmall : ((1 : Nat) : ℚ) * 10 ^ (point - 1) < bound := by
    refine lt_of_le_of_lt ?_ hvalue
    have hsplit : point - 1 = ((digits.length - 1 : Nat) : Int) + (point - digits.length) := by omega
    rw [Nat.cast_one, one_mul, hsplit, zpow_add₀ (by norm_num), zpow_natCast]
    exact mul_le_mul_of_nonneg_right hq (zpow_pos (by norm_num) _).le
  have hle := exponent_le (Nat.le_refl 1) hsmall
  have hlimit : (exponentLimit : Int) = 2147483647 := rfl
  omega

end Parts

end Literal

/-! ## 6. Doubles are read -/

open Literal (Parts)

/-- The parts of the decimal that a double is written as, its sign apart. -/
def floatParts (x : Binary64) : Parts :=
  let digits := natDigits (Shortest.of x).digits
  Parts.place digits (digits.length + (Shortest.of x).exponent)

/-- Whether a literal has a double for its value. -/
def isDouble : Option Json → Bool
  | some (.float _) => true
  | _ => false

theorem exists_of_isDouble {v : Option Json} (h : isDouble v = true) : ∃ x, v = some (.float x) := by
  unfold isDouble at h
  split at h
  · exact ⟨_, rfl⟩
  · cases h

/-- The eight greatest doubles can be read. -/
theorem greatest_isDouble : ∀ (negative sign : Bool) (j : Fin 8),
    isDouble ((floatParts ⟨negative, 2 ^ 53 - 8 + j.val, greatestExponent⟩).literal sign).value?
      = true := by
  decide +kernel

section Reading

variable {d k : Nat} {x : Binary64}

/-- **The decimal of a double is proper**, and its literal has a double for its
value. -/
theorem floatParts_spec (hx : x.Finite) (hne : x.significand ≠ 0) :
    (floatParts x).Proper ∧ ∀ negative, ∃ y, ((floatParts x).literal negative).value? = some (.float y) := by
  obtain ⟨hpos, hle⟩ := Shortest.of_spec hx hne
  have hdigits : ∀ c ∈ natDigits (Shortest.of x).digits, c.isDigit = true := fun c hc =>
    Nat.isDigit_of_mem_toDigits (by omega) (by omega) hc
  have hnil : natDigits (Shortest.of x).digits ≠ [] := Nat.toDigits_ne_nil
  have hlead := (head_natDigits (Shortest.of x).digits).resolve_right (Nat.ne_of_gt hpos)
  have hcount : Nat.ofDigitChars 10 (natDigits (Shortest.of x).digits) 0 = (Shortest.of x).digits :=
    Nat.ofDigitChars_toDigits (by omega) (by omega)
  have hproper := Parts.proper_place hdigits hnil hlead
    ((natDigits (Shortest.of x).digits).length + (Shortest.of x).exponent)
  refine ⟨hproper, fun negative => ?_⟩
  have hvalue : (floatParts x).value = (Shortest.of x).value := by
    rw [floatParts, Parts.value_place hnil, hcount, Shortest.Decimal.value]
    congr 2
    omega
  have hgreat : (0 : ℚ) < 2 ^ greatestExponent := zpow_pos (by norm_num) _
  have hbits : (x.significand : ℚ) + 1 ≤ 2 ^ 53 := by exact_mod_cast hx.significand
  by_cases htop : x.exponent = greatestExponent ∧ 2 ^ 53 - 8 ≤ x.significand
  · have hlt : x.significand - (2 ^ 53 - 8) < 8 := by
      have hsignificand := hx.significand
      omega
    have hx' : x = ⟨x.negative, 2 ^ 53 - 8 + (x.significand - (2 ^ 53 - 8)), greatestExponent⟩ := by
      rw [← htop.1, Nat.add_sub_cancel' htop.2]
    rw [hx']
    exact exists_of_isDouble (greatest_isDouble x.negative negative ⟨_, hlt⟩)
  · -- Any other double is well below the bound.
    have hbelow : ((x.significand : ℚ) + 1 / 2) * 2 ^ x.exponent
        ≤ (2 ^ 53 - 8) * 2 ^ greatestExponent := by
      by_cases hexponent : x.exponent = greatestExponent
      · have hsmall : x.significand + 1 ≤ 2 ^ 53 - 8 := by
          rw [not_and, not_le] at htop
          exact htop hexponent
        have hq : (x.significand : ℚ) + 1 ≤ (2 ^ 53 - 8 : Nat) := by exact_mod_cast hsmall
        rw [hexponent]
        refine mul_le_mul_of_nonneg_right ?_ hgreat.le
        norm_num at hq ⊢
        linarith
      · have hhigh := hx.high
        have hmono : (2 : ℚ) ^ (x.exponent + 1) ≤ 2 ^ greatestExponent :=
          zpow_le_zpow_right₀ (by norm_num) (by omega)
        rw [zpow_add_one₀ (by norm_num)] at hmono
        have hxpos : (0 : ℚ) < 2 ^ x.exponent := zpow_pos (by norm_num) _
        nlinarith
    have hvalue' : (floatParts x).value ≤ (2 ^ 53 - 8) * 2 ^ greatestExponent := by
      rw [hvalue]
      exact hle.trans hbelow
    refine hproper.value?_isSome negative hvalue' (Parts.exponent_place hdigits hnil hlead ?_)
    rw [← Parts.value_place hnil]
    refine lt_of_le_of_lt hvalue' ?_
    rw [bound]
    refine mul_lt_mul_of_pos_right ?_ hgreat
    norm_num

/-- A proper decimal is read where a value is expected, with a sign or without. -/
theorem readValue_text {p : Parts} (h : p.Proper) (negative : Bool) {rest : List Char}
    (hrest : AtEnd rest) {v : Json} (hvalue : (p.literal negative).value? = some v) :
    readValue d ((if negative then ['-'] else []) ++ p.text ++ rest) = .ok (v, rest) := by
  have hread := Parts.readNumber_text h hrest hvalue
  cases negative with
  | true =>
    rw [if_pos rfl, List.append_assoc, List.singleton_append, readValue_scalar rfl (by decide)]
    exact hread
  | false =>
    rw [if_neg Bool.false_ne_true, List.nil_append]
    cases hwhole : p.whole with
    | nil => exact absurd hwhole h.whole
    | cons c cs =>
      have hc : c.isDigit = true := h.digits c (by rw [hwhole]; exact List.mem_cons_self)
      obtain ⟨hblank, hbracket⟩ := plain_of_isDigit hc
      have htext : p.text ++ rest = c :: (cs ++ (((if p.fraction = [] then [] else '.' :: p.fraction)
          ++ Parts.exponentText p.exponent) ++ rest)) := by
        rw [Parts.text, hwhole, List.cons_append, List.cons_append, List.append_assoc]
      rw [htext] at hread ⊢
      rw [readValue_scalar hblank hbracket, readScalar_digit hc]
      exact hread

/-- **A double that is written is read**, as some double. -/
theorem readsAs_float (hx : x.Finite) : ∃ y, ReadsAs d k (float x) (float y) := by
  have hwritten : ∃ p : Parts, p.Proper ∧
      writeFloat x = (if x.negative then ['-'] else []) ++ p.text ∧
      ∃ y, (p.literal x.negative).value? = some (.float y) := by
    by_cases hzero : x.significand = 0
    · have hdigits : ∀ c ∈ ['0'] ++ ['0'], c.isDigit = true :=
        List.forall_mem_cons.mpr ⟨rfl, List.forall_mem_singleton.mpr rfl⟩
      refine ⟨⟨['0'], ['0'], none⟩, ⟨List.cons_ne_nil _ _, Or.inr rfl, hdigits, by decide,
        Or.inl (List.cons_ne_nil _ _)⟩, ?_, ?_⟩
      · rw [writeFloat, if_pos hzero]
        rfl
      · cases x.negative
        · exact exists_of_isDouble (by decide +kernel)
        · exact exists_of_isDouble (by decide +kernel)
    · obtain ⟨hproper, hvalue⟩ := floatParts_spec hx hzero
      refine ⟨floatParts x, hproper, ?_, hvalue x.negative⟩
      rw [writeFloat, if_neg hzero, floatParts]
      exact congrArg _ (Parts.placePoint_eq Nat.toDigits_ne_nil _)
  obtain ⟨p, hproper, htext, y, hvalue⟩ := hwritten
  refine ⟨y, fun rest hrest => ?_⟩
  rw [pretty, writeScalar, htext]
  exact readValue_text hproper x.negative hrest hvalue

end Reading

end ScopedState.Json
