/-
`Proofs/Utf8.lean` -- encoding loses nothing.

The bytes of one scalar value are read back as that value, whatever follows
them. So a text is read back from its bytes, and no two texts share them. The
width of a form decides everything: each of the four widths has its own lead
bytes, and a value is written in the one width that it fits.
-/
import ScopedState.Text.Utf8
set_option autoImplicit false

namespace ScopedState.Utf8

/-! ## 1. Bytes as numbers -/

theorem toNat_ofNat {n : Nat} (h : n < 256) : (UInt8.ofNat n).toNat = n := by
  simp only [UInt8.toNat_ofNat']
  omega

theorem toNat_tail (n : Nat) : (tail n).toNat = 0x80 + n % 64 := by
  rw [tail]
  exact toNat_ofNat (by omega)

theorem isTail_tail (n : Nat) : isTail (tail n) = true := by
  have h := toNat_tail n
  have hlow : (0x80 : UInt8).toNat = 0x80 := rfl
  have hhigh : (0xC0 : UInt8).toNat = 0xC0 := rfl
  simp only [isTail, Bool.and_eq_true, decide_eq_true_eq, UInt8.le_iff_toNat_le,
    UInt8.lt_iff_toNat_lt]
  omega

theorem payload_tail (n : Nat) : payload (tail n) = n % 64 := by
  rw [payload, toNat_tail]
  omega

/-- Comparing a byte with a number is comparing numbers. -/
theorem lt_ofNat_iff {n m : Nat} (hn : n < 256) (hm : m < 256) :
    UInt8.ofNat n < UInt8.ofNat m ↔ n < m := by
  rw [UInt8.lt_iff_toNat_lt, toNat_ofNat hn, toNat_ofNat hm]

theorem ofNat_le_iff {n m : Nat} (hn : n < 256) (hm : m < 256) :
    UInt8.ofNat m ≤ UInt8.ofNat n ↔ m ≤ n := by
  rw [UInt8.le_iff_toNat_le, toNat_ofNat hn, toNat_ofNat hm]

/-! ## 2. One scalar value

The cases are the four widths. In each the lead byte is compared with the
bounds of the others' lead bytes, and the number is put together again from
its groups of six bits. -/

section Widths

variable {n : Nat} (rest : Bytes)

theorem decode_one (h : n < 0x80) :
    decode (UInt8.ofNat n :: rest) = (decode rest).map (Char.ofNat n :: ·) := by
  have hlt : UInt8.ofNat n < 0x80 := (lt_ofNat_iff (m := 0x80) (by omega) (by omega)).mpr h
  rw [decode.eq_def]
  simp only [hlt, if_true, toNat_ofNat (show n < 256 by omega)]

theorem decode_two (hlow : 0x80 ≤ n) (hhigh : n < 0x800) :
    decode (UInt8.ofNat (0xC0 + n / 64) :: tail n :: rest)
      = (decode rest).map (Char.ofNat n :: ·) := by
  have hbyte : 0xC0 + n / 64 < 256 := by omega
  have hone : ¬ UInt8.ofNat (0xC0 + n / 64) < 0x80 :=
    fun h => absurd ((lt_ofNat_iff (m := 0x80) hbyte (by omega)).mp h) (by omega)
  have hlead : (0xC0 ≤ UInt8.ofNat (0xC0 + n / 64)) ∧ UInt8.ofNat (0xC0 + n / 64) < 0xE0 :=
    ⟨(ofNat_le_iff (m := 0xC0) hbyte (by omega)).mpr (by omega),
      (lt_ofNat_iff (m := 0xE0) hbyte (by omega)).mpr (by omega)⟩
  have hvalue : (0xC0 + n / 64) % 32 * 64 + n % 64 = n := by omega
  have hfits : fits 2 n = true := by
    simp only [fits, Bool.and_eq_true, decide_eq_true_eq]
    omega
  rw [decode.eq_def]
  simp only [hone, if_false, isTail_tail, Bool.not_true, Bool.false_eq_true, hlead.1, hlead.2,
    decide_true, Bool.and_self, if_true, toNat_ofNat hbyte, payload_tail, hvalue, hfits]

theorem decode_three (hlow : 0x800 ≤ n) (hhigh : n < 0x10000)
    (hsurrogate : n < 0xD800 ∨ 0xE000 ≤ n) :
    decode (UInt8.ofNat (0xE0 + n / 4096) :: tail (n / 64) :: tail n :: rest)
      = (decode rest).map (Char.ofNat n :: ·) := by
  have hbyte : 0xE0 + n / 4096 < 256 := by omega
  have hone : ¬ UInt8.ofNat (0xE0 + n / 4096) < 0x80 :=
    fun h => absurd ((lt_ofNat_iff (m := 0x80) hbyte (by omega)).mp h) (by omega)
  have htwo : ¬ UInt8.ofNat (0xE0 + n / 4096) < 0xE0 :=
    fun h => absurd ((lt_ofNat_iff (m := 0xE0) hbyte (by omega)).mp h) (by omega)
  have hlead : (0xE0 ≤ UInt8.ofNat (0xE0 + n / 4096)) ∧ UInt8.ofNat (0xE0 + n / 4096) < 0xF0 :=
    ⟨(ofNat_le_iff (m := 0xE0) hbyte (by omega)).mpr (by omega),
      (lt_ofNat_iff (m := 0xF0) hbyte (by omega)).mpr (by omega)⟩
  have hvalue : (0xE0 + n / 4096) % 16 * 4096 + n / 64 % 64 * 64 + n % 64 = n := by omega
  have hfits : fits 3 n = true := by
    simp only [fits, Bool.and_eq_true, Bool.not_eq_true', Bool.and_eq_false_iff,
      decide_eq_true_eq, decide_eq_false_iff_not]
    omega
  rw [decode.eq_def]
  simp only [hone, if_false, isTail_tail, Bool.not_true, Bool.false_eq_true, htwo, decide_false,
    Bool.and_false, hlead.1, hlead.2, decide_true, Bool.and_self, if_true, toNat_ofNat hbyte,
    payload_tail, hvalue, hfits]

theorem decode_four (hlow : 0x10000 ≤ n) (hhigh : n < 0x110000) :
    decode (UInt8.ofNat (0xF0 + n / 262144) :: tail (n / 4096) :: tail (n / 64) :: tail n :: rest)
      = (decode rest).map (Char.ofNat n :: ·) := by
  have hbyte : 0xF0 + n / 262144 < 256 := by omega
  have hone : ¬ UInt8.ofNat (0xF0 + n / 262144) < 0x80 :=
    fun h => absurd ((lt_ofNat_iff (m := 0x80) hbyte (by omega)).mp h) (by omega)
  have htwo : ¬ UInt8.ofNat (0xF0 + n / 262144) < 0xE0 :=
    fun h => absurd ((lt_ofNat_iff (m := 0xE0) hbyte (by omega)).mp h) (by omega)
  have hthree : ¬ UInt8.ofNat (0xF0 + n / 262144) < 0xF0 :=
    fun h => absurd ((lt_ofNat_iff (m := 0xF0) hbyte (by omega)).mp h) (by omega)
  have hlead : (0xF0 ≤ UInt8.ofNat (0xF0 + n / 262144)) ∧ UInt8.ofNat (0xF0 + n / 262144) < 0xF8 :=
    ⟨(ofNat_le_iff (m := 0xF0) hbyte (by omega)).mpr (by omega),
      (lt_ofNat_iff (m := 0xF8) hbyte (by omega)).mpr (by omega)⟩
  have hvalue : (0xF0 + n / 262144) % 8 * 262144 + n / 4096 % 64 * 4096 + n / 64 % 64 * 64 + n % 64
      = n := by omega
  have hfits : fits 4 n = true := by
    simp only [fits, Bool.and_eq_true, decide_eq_true_eq]
    omega
  rw [decode.eq_def]
  simp only [hone, if_false, isTail_tail, Bool.not_true, Bool.false_eq_true, htwo, hthree,
    decide_false, Bool.and_false, hlead.1, hlead.2, decide_true, Bool.and_self,
    if_true, toNat_ofNat hbyte, payload_tail, hvalue, hfits]

end Widths

/-- **One scalar value is read back**, whatever follows it. -/
theorem decode_encodeChar (c : Char) (rest : Bytes) :
    decode (encodeChar c ++ rest) = (decode rest).map (c :: ·) := by
  have hvalid : c.toNat < 0xD800 ∨ (0xDFFF < c.toNat ∧ c.toNat < 0x110000) := c.valid
  have hback : Char.ofNat c.toNat = c := Char.ofNat_toNat c
  unfold encodeChar
  dsimp only
  -- One case for each number of bytes.
  by_cases h1 : c.toNat < 0x80
  · rw [if_pos h1, List.cons_append, List.nil_append, decode_one rest h1, hback]
  · by_cases h2 : c.toNat < 0x800
    · rw [if_neg h1, if_pos h2, List.cons_append, List.cons_append, List.nil_append,
        decode_two rest (by omega) h2, hback]
    · by_cases h3 : c.toNat < 0x10000
      · rw [if_neg h1, if_neg h2, if_pos h3, List.cons_append, List.cons_append, List.cons_append,
          List.nil_append, decode_three rest (by omega) h3 (by omega), hback]
      · rw [if_neg h1, if_neg h2, if_neg h3, List.cons_append, List.cons_append, List.cons_append,
          List.cons_append, List.nil_append, decode_four rest (by omega) (by omega), hback]

/-! ## 3. Texts -/

/-- **A text is read back from its bytes.** -/
theorem decode_encode (text : List Char) : decode (encode text) = some text := by
  induction text with
  | nil => rfl
  | cons c text ih =>
    rw [encode, List.flatMap_cons, decode_encodeChar]
    rw [encode] at ih
    rw [ih]
    rfl

/-- No two texts share their bytes. -/
theorem encode_injective {s t : List Char} (h : encode s = encode t) : s = t := by
  have hs := decode_encode s
  rw [h, decode_encode] at hs
  exact (Option.some.inj hs).symm

end ScopedState.Utf8
