/-
`Proofs/Decimal/Rounding.lean` -- how far rounding goes.

The exponent at which a ratio is rounded leaves it below `2^53`, and not below
`2^52` unless it is the least exponent. So what is cut off is at most half of the
last place, and that is at most a part in `2^53` of the ratio, or half of the
least double. From this bound follow the two facts that are needed of every
operation on doubles: how far its result is from the exact one, and that it has
a result as long as the exact one is below the greatest double and a half of its
last place.
-/
import Mathlib.Algebra.Order.Field.Power
import Mathlib.Algebra.Order.Ring.Rat
import Mathlib.Data.Nat.Cast.Order.Field
import Mathlib.Tactic.FieldSimp
import Mathlib.Tactic.Linarith
import Mathlib.Tactic.NormNum
import Mathlib.Tactic.Positivity
import Mathlib.Tactic.Ring
import ScopedState.Decimal.Binary64
set_option autoImplicit false

namespace ScopedState.Binary64

variable {num den : Nat} {e : Int} {x y : Binary64} {negative : Bool}

/-! ## 1. Values -/

/-- The value of a double, its sign apart. -/
def value (x : Binary64) : ℚ := x.significand * 2 ^ x.exponent

/-- The range of the doubles: a significand of at most 53 bits, and an exponent that
is neither too small nor too great. -/
structure Finite (x : Binary64) : Prop where
  significand : x.significand < 2 ^ 53
  low : leastExponent ≤ x.exponent
  high : x.exponent ≤ greatestExponent

theorem value_nonneg (x : Binary64) : 0 ≤ x.value :=
  mul_nonneg (Nat.cast_nonneg _) (zpow_nonneg (by norm_num) _)

/-- A power of two with a whole exponent, as a ratio. -/
theorem two_zpow_of_nonneg (h : 0 ≤ e) : (2 : ℚ) ^ e = (Nat.pow 2 e.toNat : Nat) := by
  obtain ⟨n, rfl⟩ := Int.eq_ofNat_of_zero_le h
  rw [zpow_natCast, Int.toNat_natCast]
  exact_mod_cast rfl

theorem two_zpow_of_neg (h : ¬ 0 ≤ e) : (2 : ℚ) ^ e = 1 / (Nat.pow 2 (-e).toNat : Nat) := by
  have hneg := two_zpow_of_nonneg (e := -e) (by omega)
  rw [← hneg, zpow_neg, one_div, inv_inv]

/-- **A double is its ratio.** -/
theorem value_eq_ratio (x : Binary64) :
    0 < x.ratio.2 ∧ x.value = (x.ratio.1 : ℚ) / x.ratio.2 := by
  unfold ratio value
  split
  · rename_i h
    rw [two_zpow_of_nonneg h]
    refine ⟨Nat.one_pos, ?_⟩
    rw [Nat.cast_one, div_one, ← Nat.cast_mul]
  · rename_i h
    rw [two_zpow_of_neg h]
    exact ⟨Nat.pow_pos (by omega), by rw [mul_one_div]⟩

/-! ## 2. The exponent of a ratio -/

theorem scaled_eq (num : Nat) (hden : 0 < den) (e : Int) :
    0 < (scaled num den e).2 ∧
      ((scaled num den e).1 : ℚ) / (scaled num den e).2 = (num : ℚ) / den / 2 ^ e := by
  have hpow : ∀ n : Nat, 0 < Nat.pow 2 n := fun n => Nat.pow_pos (by omega)
  unfold scaled
  split
  · rename_i h
    rw [two_zpow_of_nonneg h]
    refine ⟨Nat.mul_pos hden (hpow _), ?_⟩
    rw [div_div, ← Nat.cast_mul]
  · rename_i h
    rw [two_zpow_of_neg h]
    refine ⟨hden, ?_⟩
    rw [div_div, mul_one_div, div_div_eq_mul_div, ← Nat.cast_mul]

/-- The binary logarithm of a ratio, up to one. -/
theorem log2_bounds (hnum : num ≠ 0) (hden : 0 < den) :
    (2 : ℚ) ^ ((num.log2 : Int) - den.log2 - 1) < (num : ℚ) / den ∧
      (num : ℚ) / den < 2 ^ ((num.log2 : Int) - den.log2 + 1) := by
  have hcast : ∀ n : Nat, n ≠ 0 → (2 : ℚ) ^ (n.log2 : Int) ≤ n ∧
      (n : ℚ) < 2 ^ ((n.log2 : Int) + 1) := by
    intro n hn
    have hlow := Nat.log2_self_le hn
    have hhigh := Nat.lt_log2_self (n := n)
    rw [zpow_add_one₀ (by norm_num), zpow_natCast]
    refine ⟨by exact_mod_cast hlow, ?_⟩
    rw [Nat.pow_succ] at hhigh
    exact_mod_cast hhigh
  obtain ⟨hnlow, hnhigh⟩ := hcast num hnum
  obtain ⟨hdlow, hdhigh⟩ := hcast den (Nat.ne_of_gt hden)
  have hpos : (0 : ℚ) < den := Nat.cast_pos.mpr hden
  have htwo : ∀ a : Int, (0 : ℚ) < 2 ^ a := fun a => zpow_pos (by norm_num) a
  constructor
  · rw [lt_div_iff₀ hpos]
    calc (2 : ℚ) ^ ((num.log2 : Int) - den.log2 - 1) * den
        < 2 ^ ((num.log2 : Int) - den.log2 - 1) * 2 ^ ((den.log2 : Int) + 1) :=
          mul_lt_mul_of_pos_left hdhigh (htwo _)
      _ = 2 ^ (num.log2 : Int) := by rw [← zpow_add₀ (by norm_num)]; congr 1; omega
      _ ≤ num := hnlow
  · rw [div_lt_iff₀ hpos]
    calc (num : ℚ) < 2 ^ ((num.log2 : Int) + 1) := hnhigh
      _ = 2 ^ ((num.log2 : Int) - den.log2 + 1) * 2 ^ (den.log2 : Int) := by
          rw [← zpow_add₀ (by norm_num)]; congr 1; omega
      _ ≤ 2 ^ ((num.log2 : Int) - den.log2 + 1) * den :=
          mul_le_mul_of_nonneg_left hdlow (htwo _).le

/-- **The exponent of a ratio** is where it has a whole part of 53 bits, or the least
one. -/
theorem exponentOf_spec (hnum : num ≠ 0) (hden : 0 < den) :
    (num : ℚ) / den < 2 ^ (exponentOf num den + 53) ∧
      (exponentOf num den = leastExponent ∨
        (leastExponent < exponentOf num den ∧ (2 : ℚ) ^ (exponentOf num den + 52) ≤ (num : ℚ) / den)) := by
  obtain ⟨hlow, hhigh⟩ := log2_bounds hnum hden
  let guess : Int := (num.log2 : Int) - (den.log2 : Int) - 52
  have htwo : ∀ a : Int, (0 : ℚ) < 2 ^ a := fun a => zpow_pos (by norm_num) a
  -- The guess is right or one too great, and the whole part tells which.
  have hguess : ∃ e : Int, exponentOf num den = max leastExponent e ∧
      (2 : ℚ) ^ (e + 52) ≤ (num : ℚ) / den ∧ (num : ℚ) / den < 2 ^ (e + 53) := by
    obtain ⟨hpos, hratio⟩ := scaled_eq num hden guess
    have hposq : (0 : ℚ) < (scaled num den guess).2 := Nat.cast_pos.mpr hpos
    have hfifty : Nat.pow 2 52 = 2 ^ 52 := rfl
    by_cases hsmall : (scaled num den guess).1 / (scaled num den guess).2 < Nat.pow 2 52
    · refine ⟨guess - 1, ?_, ?_, ?_⟩
      · rw [exponentOf]
        simp only [guess] at hsmall
        simp only [hsmall, if_true, guess]
      · refine le_trans (le_of_eq ?_) hlow.le
        congr 1
        omega
      · rw [Nat.div_lt_iff_lt_mul hpos, hfifty] at hsmall
        have hq : ((scaled num den guess).1 : ℚ) < 2 ^ 52 * (scaled num den guess).2 := by
          exact_mod_cast hsmall
        rw [← div_lt_iff₀ hposq, hratio, div_lt_iff₀ (htwo _)] at hq
        refine lt_of_lt_of_eq hq ?_
        rw [show (2 : ℚ) ^ 52 = 2 ^ (52 : Int) from (zpow_natCast 2 52).symm,
          ← zpow_add₀ (by norm_num)]
        congr 1
        omega
    · refine ⟨guess, ?_, ?_, ?_⟩
      · rw [exponentOf]
        simp only [guess] at hsmall
        simp only [hsmall, if_false, guess]
      · rw [not_lt, Nat.le_div_iff_mul_le hpos, hfifty] at hsmall
        have hq : (2 : ℚ) ^ 52 * (scaled num den guess).2 ≤ (scaled num den guess).1 := by
          exact_mod_cast hsmall
        rw [← le_div_iff₀ hposq, hratio, le_div_iff₀ (htwo _)] at hq
        refine le_of_eq_of_le ?_ hq
        rw [show (2 : ℚ) ^ 52 = 2 ^ (52 : Int) from (zpow_natCast 2 52).symm,
          ← zpow_add₀ (by norm_num)]
        congr 1
        omega
      · refine lt_of_lt_of_eq hhigh ?_
        congr 1
        omega
  obtain ⟨e, he, helow, hehigh⟩ := hguess
  rw [he]
  constructor
  · refine lt_of_lt_of_le hehigh (zpow_le_zpow_right₀ (by norm_num) ?_)
    have := le_max_right leastExponent e
    omega
  · rcases le_or_gt e leastExponent with hle | hgt
    · exact Or.inl (max_eq_left hle)
    · rw [max_eq_right hgt.le]
      exact Or.inr ⟨hgt, helow⟩

/-! ## 3. Rounding -/

/-- What is rounded is at most a half away. -/
theorem roundDiv_bounds (num : Nat) (hden : 0 < den) :
    (num : ℚ) / den - 1 / 2 ≤ roundDiv num den ∧ (roundDiv num den : ℚ) ≤ (num : ℚ) / den + 1 / 2 := by
  have hpos : (0 : ℚ) < den := Nat.cast_pos.mpr hden
  have hdivmod : (num : ℚ) = den * (num / den : Nat) + (num % den : Nat) := by
    exact_mod_cast (Nat.div_add_mod num den).symm
  have hrest : ((num % den : Nat) : ℚ) < den := Nat.cast_lt.mpr (Nat.mod_lt num hden)
  have hrest' : (0 : ℚ) ≤ (num % den : Nat) := Nat.cast_nonneg _
  have hquotient : (num : ℚ) / den = (num / den : Nat) + (num % den : Nat) / den := by
    rw [hdivmod]
    field_simp
  -- The rest decides, and both answers are near enough when it is a half.
  have hless : 2 * (num % den) ≤ den → ((num % den : Nat) : ℚ) / den ≤ 1 / 2 := by
    intro h
    rw [div_le_div_iff₀ hpos (by norm_num)]
    have hq : (2 : ℚ) * (num % den : Nat) ≤ den := by exact_mod_cast h
    linarith
  have hmore : den ≤ 2 * (num % den) → 1 / 2 ≤ ((num % den : Nat) : ℚ) / den := by
    intro h
    rw [div_le_div_iff₀ (by norm_num) hpos]
    have hq : (den : ℚ) ≤ 2 * (num % den : Nat) := by exact_mod_cast h
    linarith
  have hpart : (0 : ℚ) ≤ (num % den : Nat) / den := div_nonneg hrest' hpos.le
  have hpart' : ((num % den : Nat) : ℚ) / den < 1 := (div_lt_one hpos).mpr hrest
  have hcases : (roundDiv num den = num / den ∧ 2 * (num % den) ≤ den) ∨
      (roundDiv num den = num / den + 1 ∧ den ≤ 2 * (num % den)) := by
    unfold roundDiv
    simp only []
    split
    · exact Or.inl ⟨rfl, by omega⟩
    · split
      · exact Or.inr ⟨rfl, by omega⟩
      · split
        · exact Or.inl ⟨rfl, by omega⟩
        · exact Or.inr ⟨rfl, by omega⟩
  rw [hquotient]
  rcases hcases with ⟨heq, h⟩ | ⟨heq, h⟩
  · have hle := hless h
    rw [heq]
    constructor <;> linarith
  · have hle := hmore h
    rw [heq, Nat.cast_add, Nat.cast_one]
    constructor <;> linarith

theorem normalize_eq (m : Nat) (e : Int) :
    ((normalize m e).1 : ℚ) * 2 ^ (normalize m e).2 = m * 2 ^ e := by
  unfold normalize
  split
  · rename_i hm
    rw [hm, zpow_add_one₀ (by norm_num)]
    have hone : ((Nat.pow 2 52 : Nat) : ℚ) * 2 = (Nat.pow 2 53 : Nat) := by norm_num
    rw [← hone]
    ring
  · rfl

/-- The significand that a ratio is rounded to, and the exponent. -/
def rounded (num den : Nat) : Nat × Int :=
  let e := exponentOf num den
  normalize (roundDiv (scaled num den e).1 (scaled num den e).2) e

theorem ofRatio?_eq (hnum : num ≠ 0) : ofRatio? negative num den
    = if greatestExponent < (rounded num den).2 then none
      else some ⟨negative, (rounded num den).1, (rounded num den).2⟩ := by
  rw [ofRatio?, if_neg hnum]
  rfl

/-- What is cut off is at most half of the last place. -/
theorem rounded_near (num : Nat) (hden : 0 < den) :
    (num : ℚ) / den - 2 ^ exponentOf num den / 2
        ≤ (rounded num den).1 * 2 ^ (rounded num den).2 ∧
      ((rounded num den).1 : ℚ) * 2 ^ (rounded num den).2
        ≤ (num : ℚ) / den + 2 ^ exponentOf num den / 2 := by
  obtain ⟨hpos, hratio⟩ := scaled_eq num hden (exponentOf num den)
  obtain ⟨hlow, hhigh⟩ := roundDiv_bounds (scaled num den (exponentOf num den)).1 hpos
  have htwo : (0 : ℚ) < 2 ^ exponentOf num den := zpow_pos (by norm_num) _
  rw [rounded, normalize_eq]
  rw [hratio] at hlow hhigh
  have hcancel : (num : ℚ) / den / 2 ^ exponentOf num den * 2 ^ exponentOf num den = num / den :=
    div_mul_cancel₀ _ htwo.ne'
  constructor
  · have h := mul_le_mul_of_nonneg_right hlow htwo.le
    linarith
  · have h := mul_le_mul_of_nonneg_right hhigh htwo.le
    linarith

/-- What is rounded has at most 53 bits, and an exponent that is not too small. -/
theorem rounded_range (hnum : num ≠ 0) (hden : 0 < den) :
    (rounded num den).1 < 2 ^ 53 ∧ leastExponent ≤ (rounded num den).2 := by
  obtain ⟨hpos, hratio⟩ := scaled_eq num hden (exponentOf num den)
  obtain ⟨_, hhigh⟩ := roundDiv_bounds (scaled num den (exponentOf num den)).1 hpos
  obtain ⟨hbelow, hleast⟩ := exponentOf_spec hnum hden
  have hfits : (num : ℚ) / den / 2 ^ exponentOf num den < 2 ^ 53 := by
    rw [div_lt_iff₀ (zpow_pos (by norm_num) _)]
    refine lt_of_lt_of_eq hbelow ?_
    rw [zpow_add₀ (by norm_num), mul_comm]
    rfl
  have hle : roundDiv (scaled num den (exponentOf num den)).1 (scaled num den (exponentOf num den)).2
      < 2 ^ 53 + 1 := by
    rw [hratio] at hhigh
    have hq : ((roundDiv (scaled num den (exponentOf num den)).1
        (scaled num den (exponentOf num den)).2 : Nat) : ℚ) < 2 ^ 53 + 1 := by linarith
    exact_mod_cast hq
  have hexponent : leastExponent ≤ exponentOf num den := by
    rcases hleast with h | ⟨h, _⟩ <;> omega
  have hpow : Nat.pow 2 53 = 2 ^ 53 ∧ Nat.pow 2 52 = 2 ^ 52 := ⟨rfl, rfl⟩
  rw [rounded]
  unfold normalize
  split
  · refine ⟨?_, by dsimp only; omega⟩
    show Nat.pow 2 52 < 2 ^ 53
    rw [hpow.2]
    norm_num
  · rename_i hne
    rw [hpow.1] at hne
    exact ⟨by dsimp only; omega, hexponent⟩

/-- **What a ratio is rounded to** is a double in the range. -/
theorem finite_ofRatio? (hden : 0 < den) (h : ofRatio? negative num den = some x) : x.Finite := by
  by_cases hnum : num = 0
  · rw [ofRatio?, if_pos hnum] at h
    rw [← Option.some.inj h]
    exact ⟨Nat.pow_pos (by omega), Int.le_refl _, (by decide : leastExponent ≤ greatestExponent)⟩
  · rw [ofRatio?_eq hnum] at h
    split at h
    · cases h
    · rename_i hgreat
      obtain ⟨hsignificand, hexponent⟩ := rounded_range hnum hden
      rw [← Option.some.inj h]
      exact ⟨hsignificand, hexponent, not_lt.mp hgreat⟩

/-- **How far rounding goes**: at most a part in `2^53` of the ratio, or half of the
least double. -/
theorem value_ofRatio? (hden : 0 < den) (h : ofRatio? negative num den = some x) :
    (num : ℚ) / den * (1 - 1 / 2 ^ 53) - 2 ^ leastExponent / 2 ≤ x.value ∧
      x.value ≤ (num : ℚ) / den * (1 + 1 / 2 ^ 53) + 2 ^ leastExponent / 2 := by
  have hratio : (0 : ℚ) ≤ (num : ℚ) / den := div_nonneg (Nat.cast_nonneg _) (Nat.cast_nonneg _)
  have htiny : (0 : ℚ) < 2 ^ leastExponent := zpow_pos (by norm_num) _
  by_cases hnum : num = 0
  · rw [ofRatio?, if_pos hnum] at h
    rw [← Option.some.inj h, hnum]
    simp only [value, Nat.cast_zero, zero_mul, zero_div, zero_sub, zero_add]
    constructor <;> linarith
  · rw [ofRatio?_eq hnum] at h
    split at h
    · cases h
    · obtain ⟨hlow, hhigh⟩ := rounded_near num hden
      have hplace : (2 : ℚ) ^ exponentOf num den
          ≤ (num : ℚ) / den * (1 / 2 ^ 52) + 2 ^ leastExponent := by
        rcases (exponentOf_spec hnum hden).2 with hleast | ⟨_, hnormal⟩
        · rw [hleast]
          linarith
        · rw [zpow_add₀ (by norm_num)] at hnormal
          have hfifty : (2 : ℚ) ^ (52 : Int) = 2 ^ 52 := zpow_natCast 2 52
          rw [hfifty] at hnormal
          linarith
      rw [← Option.some.inj h, value]
      constructor <;> linarith

/-- The bound of what is rounded to a double: half a last place beyond the greatest. -/
def bound : ℚ := (2 ^ 53 - 1 / 2) * 2 ^ greatestExponent

/-- **There is a double for a ratio** up to the bound. -/
theorem ofRatio?_isSome (hden : 0 < den) (h : (num : ℚ) / den < bound) :
    (ofRatio? negative num den).isSome = true := by
  rw [bound] at h
  by_cases hnum : num = 0
  · rw [ofRatio?, if_pos hnum]
    rfl
  · rw [ofRatio?_eq hnum]
    split
    · rename_i hgreat
      exfalso
      have htwo : (0 : ℚ) < 2 ^ greatestExponent := zpow_pos (by norm_num) _
      obtain ⟨hbelow, hleast⟩ := exponentOf_spec hnum hden
      obtain ⟨hpos, hratio⟩ := scaled_eq num hden (exponentOf num den)
      obtain ⟨_, hhigh⟩ := roundDiv_bounds (scaled num den (exponentOf num den)).1 hpos
      -- Either the exponent was too great before, or the significand was carried.
      have hexponent : exponentOf num den ≤ greatestExponent := by
        refine Int.not_lt.mp fun hlt => ?_
        rcases hleast with hleast | ⟨_, hnormal⟩
        · rw [hleast] at hlt
          exact absurd hlt (by decide)
        · have hmono : (2 : ℚ) ^ (greatestExponent + 53) ≤ 2 ^ (exponentOf num den + 52) :=
            zpow_le_zpow_right₀ (by norm_num) (by omega)
          rw [zpow_add₀ (by norm_num)] at hmono
          have hpow : (2 : ℚ) ^ (53 : Int) = 2 ^ 53 := zpow_natCast 2 53
          rw [hpow] at hmono
          linarith
      rw [rounded] at hgreat
      unfold normalize at hgreat
      split at hgreat
      · rename_i hcarried
        have hlast : exponentOf num den = greatestExponent := by
          dsimp only at hgreat
          omega
        have hcast : ((Nat.pow 2 53 : Nat) : ℚ) = 2 ^ 53 := by norm_num
        rw [hcarried, hratio, hlast, hcast, ← sub_le_iff_le_add, le_div_iff₀ htwo] at hhigh
        linarith
      · dsimp only at hgreat
        omega
    · rfl

/-! ## 4. Arithmetic -/

/-- The greatest power of two that is a double is far away. -/
theorem lt_bound_of_small {q : ℚ} (h : q ≤ 2 ^ 72) : q < bound := by
  have hgreat : (2 : ℚ) ^ (20 : Int) ≤ 2 ^ greatestExponent :=
    zpow_le_zpow_right₀ (by norm_num) (by decide)
  have hpow : (2 : ℚ) ^ (20 : Int) = 2 ^ 20 := zpow_natCast 2 20
  rw [hpow] at hgreat
  rw [bound]
  linarith

/-- **A product has a double** up to the bound. -/
theorem mul?_isSome (h : x.value * y.value < bound) : (x.mul? y).isSome = true := by
  obtain ⟨hx, hxvalue⟩ := value_eq_ratio x
  obtain ⟨hy, hyvalue⟩ := value_eq_ratio y
  refine ofRatio?_isSome (Nat.mul_pos hx hy) ?_
  rw [hxvalue, hyvalue, div_mul_div_comm] at h
  push_cast
  exact h

/-- A quotient as a ratio. -/
theorem div?_ratio (x : Binary64) (hy : 0 < y.value) :
    0 < x.ratio.2 * y.ratio.1 ∧
      ((x.ratio.1 * y.ratio.2 : Nat) : ℚ) / (x.ratio.2 * y.ratio.1 : Nat) = x.value / y.value := by
  obtain ⟨hxden, hxvalue⟩ := value_eq_ratio x
  obtain ⟨hyden, hyvalue⟩ := value_eq_ratio y
  have hnum : 0 < y.ratio.1 := by
    refine Nat.pos_of_ne_zero fun hzero => ?_
    rw [hyvalue, hzero, Nat.cast_zero, zero_div] at hy
    exact lt_irrefl _ hy
  refine ⟨Nat.mul_pos hxden hnum, ?_⟩
  rw [hxvalue, hyvalue, div_div_div_eq]
  push_cast
  rfl

/-- **A quotient has a double** up to the bound. -/
theorem div?_isSome (hy : 0 < y.value) (h : x.value / y.value < bound) :
    (x.div? y).isSome = true := by
  obtain ⟨hden, hratio⟩ := div?_ratio x hy
  exact ofRatio?_isSome hden (lt_of_eq_of_lt hratio h)

/-- What is below the least double is nothing beside one. -/
theorem least_le : (2 : ℚ) ^ leastExponent / 2 ≤ 1 / 2 ^ 53 := by
  have hleast : (2 : ℚ) ^ leastExponent ≤ 2 ^ (-53 : Int) :=
    zpow_le_zpow_right₀ (by norm_num) (by decide)
  have hpow : (2 : ℚ) ^ (-53 : Int) = 1 / 2 ^ 53 := by
    rw [zpow_neg, one_div]
    exact congrArg Inv.inv (zpow_natCast 2 53)
  rw [hpow] at hleast
  have hpos : (0 : ℚ) < 1 / 2 ^ 53 := by positivity
  linarith

/-- A quotient is rounded to at most a little more. -/
theorem value_div?_le {z : Binary64} (hy : 0 < y.value) (h : x.div? y = some z) :
    z.value ≤ x.value / y.value * (1 + 1 / 2 ^ 53) + 1 / 2 ^ 53 := by
  obtain ⟨hden, hratio⟩ := div?_ratio x hy
  have hhigh := (value_ofRatio? hden h).2
  rw [hratio] at hhigh
  exact hhigh.trans (add_le_add_right least_le _)

/-- **A positive number is rounded** to a double that is near it. -/
theorem ofNat_near {n : Nat} (hpos : 1 ≤ n) (hn : (n : ℚ) < bound) :
    (n : ℚ) * (1 - 1 / 2 ^ 52) ≤ (ofNat n).value ∧ (ofNat n).value ≤ n * (1 + 1 / 2 ^ 52) := by
  have hone : (n : ℚ) / (1 : Nat) = n := by rw [Nat.cast_one, div_one]
  obtain ⟨x, hx⟩ := Option.isSome_iff_exists.mp
    (ofRatio?_isSome Nat.one_pos (lt_of_eq_of_lt hone hn))
  obtain ⟨hlow, hhigh⟩ := value_ofRatio? Nat.one_pos hx
  rw [ofNat, hx, Option.getD_some]
  rw [hone] at hlow hhigh
  have hleast := least_le
  have hn : (1 : ℚ) ≤ n := by exact_mod_cast hpos
  constructor <;> linarith

end ScopedState.Binary64
