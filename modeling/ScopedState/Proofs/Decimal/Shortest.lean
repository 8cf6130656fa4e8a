/-
`Proofs/Decimal/Shortest.lean` -- the shortest decimal is near.

Whatever grid the digits of a double come from, they make up a number in the
interval of the double, or one at most as great as the double itself. So the
decimal is never more than half a last place above the double, which is what a
reader that rounds has to cope with. It is not zero either: the grids go down to
one whose step is below the double.
-/
import ScopedState.Decimal.Shortest
import ScopedState.Proofs.Decimal.Rounding
set_option autoImplicit false

namespace ScopedState.Shortest

open Binary64 (leastExponent greatestExponent)

variable {x : Binary64} {i : Interval} {n : Nat} {p : Int} {d : Decimal}

/-- The value of a decimal. -/
def Decimal.value (d : Decimal) : ℚ := d.digits * 10 ^ d.exponent

/-! ## 1. Intervals -/

/-- A power of ten with a whole exponent, as a ratio. -/
theorem ten_zpow_of_nonneg (h : 0 ≤ p) : (10 : ℚ) ^ p = (Nat.pow 10 p.toNat : Nat) := by
  obtain ⟨n, rfl⟩ := Int.eq_ofNat_of_zero_le h
  rw [zpow_natCast, Int.toNat_natCast]
  exact_mod_cast rfl

theorem ten_zpow_of_neg (h : ¬ 0 ≤ p) : (10 : ℚ) ^ p = 1 / (Nat.pow 10 (-p).toNat : Nat) := by
  have hneg := ten_zpow_of_nonneg (p := -p) (by omega)
  rw [← hneg, zpow_neg, one_div, inv_inv]

/-- **The interval of a double** around its value. -/
theorem of_eq (x : Binary64) :
    0 < (Interval.of x).denominator ∧
      ((Interval.of x).value : ℚ) / (Interval.of x).denominator = x.value ∧
      ((Interval.of x).high : ℚ) / (Interval.of x).denominator
        = ((x.significand : ℚ) + 1 / 2) * 2 ^ x.exponent := by
  have hexponent : (2 : ℚ) ^ x.exponent = 2 ^ (x.exponent - 2) * 4 := by
    rw [show x.exponent = x.exponent - 2 + 2 by omega, zpow_add₀ (by norm_num)]
    norm_num
  rw [Binary64.value, hexponent]
  unfold Interval.of
  simp only []
  split
  · rename_i h
    rw [Binary64.two_zpow_of_nonneg h]
    generalize Nat.pow 2 (x.exponent - 2).toNat = scale
    refine ⟨Nat.one_pos, ?_, ?_⟩ <;>
    · push_cast
      ring
  · rename_i h
    rw [Binary64.two_zpow_of_neg h]
    refine ⟨Nat.pow_pos (by omega), ?_, ?_⟩ <;>
    · generalize Nat.pow 2 (-(x.exponent - 2)).toNat = scale
      push_cast
      ring

/-- What is held is not above the upper end. -/
theorem Interval.le_of_holds (hden : 0 < i.denominator) (h : i.holds n p = true) :
    (n : ℚ) * 10 ^ p ≤ (i.high : ℚ) / i.denominator := by
  have hpos : (0 : ℚ) < i.denominator := Nat.cast_pos.mpr hden
  -- Closed or not, the point is at most at the end.
  have hnat : (if 0 ≤ p then n * Nat.pow 10 p.toNat * i.denominator else n * i.denominator)
      ≤ i.high * (if 0 ≤ p then 1 else Nat.pow 10 (-p).toNat) := by
    unfold holds at h
    simp only [] at h
    split at h <;>
    · rw [Bool.and_eq_true, decide_eq_true_eq, decide_eq_true_eq] at h
      omega
  rw [le_div_iff₀ hpos]
  by_cases hp : 0 ≤ p
  · rw [if_pos hp, if_pos hp, Nat.mul_one] at hnat
    rw [ten_zpow_of_nonneg hp]
    exact_mod_cast hnat
  · rw [if_neg hp, if_neg hp] at hnat
    have hten : (0 : ℚ) < (Nat.pow 10 (-p).toNat : Nat) := Nat.cast_pos.mpr (Nat.pow_pos (by omega))
    rw [ten_zpow_of_neg hp, mul_one_div, div_mul_eq_mul_div, div_le_iff₀ hten]
    exact_mod_cast hnat

/-- The step at or below the value, and the one above it. -/
theorem Interval.floor_bounds (hden : 0 < i.denominator) (p : Int) :
    ((i.floor p).1 : ℚ) * 10 ^ p ≤ (i.value : ℚ) / i.denominator ∧
      (i.value : ℚ) / i.denominator < ((i.floor p).1 + 1) * 10 ^ p := by
  have hpos : (0 : ℚ) < i.denominator := Nat.cast_pos.mpr hden
  have hdivision : ∀ num den : Nat, 0 < den →
      ((num / den : Nat) : ℚ) * den ≤ num ∧ (num : ℚ) < ((num / den : Nat) + 1) * den := by
    intro num den hpos
    have hle := Nat.div_mul_le_self num den
    refine ⟨by exact_mod_cast hle, ?_⟩
    have hlt : num < (num / den + 1) * den := by
      have hmod := Nat.mod_lt num hpos
      have heq := Nat.div_add_mod num den
      rw [Nat.add_mul, Nat.one_mul, Nat.mul_comm (num / den) den]
      omega
    exact_mod_cast hlt
  unfold floor
  by_cases hp : 0 ≤ p
  · simp only [if_pos hp]
    obtain ⟨hle, hlt⟩ := hdivision i.value (i.denominator * Nat.pow 10 p.toNat)
      (Nat.mul_pos hden (Nat.pow_pos (by omega)))
    rw [ten_zpow_of_nonneg hp, le_div_iff₀ hpos, div_lt_iff₀ hpos]
    push_cast at hle hlt ⊢
    constructor <;> linarith
  · simp only [if_neg hp]
    have hten : (0 : ℚ) < (Nat.pow 10 (-p).toNat : Nat) := Nat.cast_pos.mpr (Nat.pow_pos (by omega))
    obtain ⟨hle, hlt⟩ := hdivision (i.value * Nat.pow 10 (-p).toNat) i.denominator hden
    rw [ten_zpow_of_neg hp, mul_one_div, mul_one_div, div_le_div_iff₀ hten hpos,
      div_lt_div_iff₀ hpos hten]
    push_cast at hle hlt ⊢
    exact ⟨hle, hlt⟩

/-- A point that is picked is held, and is not zero. -/
theorem Interval.of_pick (h : i.pick p = some n) : i.holds n p = true ∧ 0 < n := by
  unfold pick at h
  simp only [] at h
  split at h
  · rename_i hdown _
    rw [Bool.and_eq_true, decide_eq_true_eq] at hdown
    rw [← Option.some.inj h]
    exact ⟨hdown.1, Nat.pos_of_ne_zero hdown.2⟩
  · rename_i _ hup
    rw [← Option.some.inj h]
    exact ⟨hup, Nat.succ_pos _⟩
  · cases h
  · rename_i hdown hup
    rw [Bool.and_eq_true, decide_eq_true_eq] at hdown
    have hboth : n = (i.floor p).1 ∨ n = (i.floor p).1 + 1 := by
      split at h
      · exact Or.inl (Option.some.inj h).symm
      · exact Or.inr (Option.some.inj h).symm
      · split at h
        · exact Or.inl (Option.some.inj h).symm
        · exact Or.inr (Option.some.inj h).symm
    rcases hboth with rfl | rfl
    · exact ⟨hdown.1, Nat.pos_of_ne_zero hdown.2⟩
    · exact ⟨hup, Nat.succ_pos _⟩

/-! ## 2. The digits -/

/-- **What the search ends with** is in the interval, or not above the value. It is
not zero if the last step is not above the value. -/
theorem search_spec (hden : 0 < i.denominator) (hvalue : i.value ≤ i.high) (fuel : Nat) (p : Int) :
    (search i fuel p).value ≤ (i.high : ℚ) / i.denominator ∧
      ((10 : ℚ) ^ (p - fuel) ≤ (i.value : ℚ) / i.denominator → 0 < (search i fuel p).digits) := by
  have hpos : (0 : ℚ) < i.denominator := Nat.cast_pos.mpr hden
  induction fuel generalizing p with
  | zero =>
    obtain ⟨hle, hlt⟩ := Interval.floor_bounds hden p
    refine ⟨hle.trans (div_le_div_of_nonneg_right (Nat.cast_le.mpr hvalue) hpos.le), fun hstep => ?_⟩
    have hpow : p - ((0 : Nat) : Int) = p := Int.sub_zero p
    rw [hpow] at hstep
    show 0 < (i.floor p).1
    refine Nat.pos_of_ne_zero fun hzero => ?_
    rw [hzero, Nat.cast_zero, zero_add, one_mul] at hlt
    exact absurd hstep (not_le.mpr hlt)
  | succ fuel ih =>
    rw [search]
    cases hpick : i.pick p with
    | some n =>
      obtain ⟨hholds, hn⟩ := Interval.of_pick hpick
      exact ⟨Interval.le_of_holds hden hholds, fun _ => hn⟩
    | none =>
      obtain ⟨hle, hsome⟩ := ih (p - 1)
      refine ⟨hle, fun hstep => hsome ?_⟩
      have hpow : p - 1 - (fuel : Int) = p - ((fuel + 1 : Nat) : Int) := by
        push_cast
        ring
      rw [hpow]
      exact hstep

/-- Zeros at the end do not matter. -/
theorem trim_spec (fuel : Nat) (d : Decimal) :
    (trim fuel d).value = d.value ∧ (0 < d.digits → 0 < (trim fuel d).digits) := by
  induction fuel generalizing d with
  | zero => exact ⟨rfl, id⟩
  | succ fuel ih =>
    rw [trim]
    split
    · rename_i h
      rw [Bool.and_eq_true, decide_eq_true_eq, decide_eq_true_eq] at h
      obtain ⟨hvalue, hpos⟩ := ih ⟨d.digits / 10, d.exponent + 1⟩
      refine ⟨hvalue.trans ?_, fun _ => hpos (by dsimp only; omega)⟩
      have hten : (d.digits : ℚ) = (d.digits / 10 : Nat) * 10 := by
        exact_mod_cast (Nat.div_mul_cancel (Nat.dvd_of_mod_eq_zero h.1)).symm
      rw [Decimal.value, Decimal.value, zpow_add_one₀ (by norm_num), hten]
      ring
    · exact ⟨rfl, id⟩

/-- Whether the last grid is fine enough for a value of a number of bits, counted
from the least one. -/
def fineFor (n : Nat) : Bool :=
  let bits : Int := (n : Int) - 1073
  let p := bits * 30103 / 100000 + 1 - 20
  Nat.pow 10 p.toNat * Nat.pow 2 (1 - bits).toNat ≤ Nat.pow 2 (bits - 1).toNat * Nat.pow 10 (-p).toNat

theorem fineFor_all : (List.range 2098).all fineFor = true := by decide +kernel

/-- **The last grid is fine enough**: its step is not above a value of any number of
bits that a double has. -/
theorem lastStep_le (bits : Int) (hlow : -1073 ≤ bits) (hhigh : bits ≤ 1024) :
    (10 : ℚ) ^ (bits * 30103 / 100000 + 1 - 20) ≤ 2 ^ (bits - 1) := by
  have hfine := List.all_eq_true.mp fineFor_all (bits + 1073).toNat (List.mem_range.mpr (by omega))
  unfold fineFor at hfine
  have hbits : ((bits + 1073).toNat : Int) - 1073 = bits := by omega
  simp only [hbits, decide_eq_true_eq] at hfine
  generalize bits * 30103 / 100000 + 1 - 20 = p at hfine ⊢
  -- Of a positive and a negative part one is nothing.
  have hten : (10 : ℚ) ^ p * (Nat.pow 10 (-p).toNat : Nat) = (Nat.pow 10 p.toNat : Nat) := by
    by_cases hp : 0 ≤ p
    · have hzero : (-p).toNat = 0 := by omega
      rw [ten_zpow_of_nonneg hp, hzero]
      exact_mod_cast Nat.mul_one _
    · have hzero : p.toNat = 0 := by omega
      rw [ten_zpow_of_neg hp, hzero]
      have hne : ((Nat.pow 10 (-p).toNat : Nat) : ℚ) ≠ 0 :=
        Nat.cast_ne_zero.mpr (Nat.ne_of_gt (Nat.pow_pos (by omega)))
      rw [one_div, inv_mul_cancel₀ hne]
      exact_mod_cast rfl
  have htwo : (2 : ℚ) ^ (bits - 1) * (Nat.pow 2 (1 - bits).toNat : Nat)
      = (Nat.pow 2 (bits - 1).toNat : Nat) := by
    have hneg : (1 - bits).toNat = (-(bits - 1)).toNat := by omega
    by_cases hp : 0 ≤ bits - 1
    · have hzero : (-(bits - 1)).toNat = 0 := by omega
      rw [Binary64.two_zpow_of_nonneg hp, hneg, hzero]
      exact_mod_cast Nat.mul_one _
    · have hzero : (bits - 1).toNat = 0 := by omega
      rw [Binary64.two_zpow_of_neg hp, hneg, hzero]
      have hne : ((Nat.pow 2 (-(bits - 1)).toNat : Nat) : ℚ) ≠ 0 :=
        Nat.cast_ne_zero.mpr (Nat.ne_of_gt (Nat.pow_pos (by omega)))
      rw [one_div]
      refine (inv_mul_cancel₀ hne).trans ?_
      exact_mod_cast rfl
  have hcast : ((Nat.pow 10 p.toNat : Nat) : ℚ) * (Nat.pow 2 (1 - bits).toNat : Nat)
      ≤ (Nat.pow 2 (bits - 1).toNat : Nat) * (Nat.pow 10 (-p).toNat : Nat) := by
    exact_mod_cast hfine
  have hpos : (0 : ℚ) < (Nat.pow 10 (-p).toNat : Nat) * (Nat.pow 2 (1 - bits).toNat : Nat) := by
    exact_mod_cast Nat.mul_pos (Nat.pow_pos (by omega)) (Nat.pow_pos (by omega))
  rw [← hten, ← htwo] at hcast
  refine le_of_mul_le_mul_right ?_ hpos
  linarith

/-- **The shortest decimal of a double** is not zero and at most half of the last
place above it. -/
theorem of_spec (hx : x.Finite) (hne : x.significand ≠ 0) :
    0 < (Shortest.of x).digits ∧
      (Shortest.of x).value ≤ ((x.significand : ℚ) + 1 / 2) * 2 ^ x.exponent := by
  obtain ⟨hden, hvalue, hhigh⟩ := of_eq x
  have hordered : (Interval.of x).value ≤ (Interval.of x).high :=
    Nat.mul_le_mul_right _ (Nat.le_add_right _ _)
  obtain ⟨hle, hsome⟩ := search_spec hden hordered 20 (topExponent x)
  obtain ⟨htrim, hpos⟩ := trim_spec 20 (search (Interval.of x) 20 (topExponent x))
  rw [Shortest.of, if_neg hne]
  refine ⟨hpos (hsome ?_), ?_⟩
  · -- The value has as many bits as its significand, less those behind the point.
    have hlog : x.significand.log2 < 53 := (Nat.log2_lt hne).mpr hx.significand
    have hlow := hx.low
    have hhigh := hx.high
    unfold leastExponent at hlow
    unfold greatestExponent at hhigh
    have hstep := lastStep_le ((x.significand.log2 : Int) + 1 + x.exponent) (by omega) (by omega)
    rw [hvalue, topExponent]
    refine le_trans hstep ?_
    rw [Binary64.value, show (x.significand.log2 : Int) + 1 + x.exponent - 1
      = x.significand.log2 + x.exponent by omega, zpow_add₀ (by norm_num), zpow_natCast]
    refine mul_le_mul_of_nonneg_right ?_ (zpow_nonneg (by norm_num) _)
    exact_mod_cast Nat.log2_self_le hne
  · rw [htrim, ← hhigh]
    exact hle

end ScopedState.Shortest
