import GCode.Proofs.Binary64.Exact

/-!
# Values of numbers

A rational number is the value of one number at most, but for the two zeros. What a mantissa of up to 53 bits and an
exponent in range stand for is the value of a number.
-/

namespace GCode.Binary64

/-! ## Zero -/

theorem absolute_of_isZero {x : Float} (h : isZero x = true) : absolute x = 0 := by
  rw [isZero, decide_eq_true_eq] at h
  have hm : mantissa x = 0 := by
    rcases mantissa_exponent_cases x with ⟨_, hm, _⟩ | ⟨hge, _, _⟩ <;> omega
  rw [absolute, hm, Nat.cast_zero, zero_mul]

theorem mantissa_pos {x : Float} (h : isZero x = false) : 0 < mantissa x := by
  rw [isZero, decide_eq_false_iff_not] at h
  rcases mantissa_exponent_cases x with ⟨_, hm, _⟩ | ⟨_, hm, _⟩ <;> omega

theorem hasValue_of_isZero {x : Float} (h : isZero x = true) : HasValue x 0 := by
  have habs := absolute_of_isZero h
  rw [isZero, decide_eq_true_eq] at h
  constructor
  · rw [isFinite, h]
    rfl
  · rw [habs, neg_zero, ite_self]

/-! ## One number for a value -/

namespace HasValue

variable {x y : Float} {r s : ℚ}

theorem unique (h : HasValue x r) (h' : HasValue x s) : r = s :=
  h.value.symm.trans h'.value

theorem abs_eq (h : HasValue x r) : |r| = absolute x := by
  rw [← h.value]
  split
  · rw [abs_neg, abs_of_nonneg (absolute_nonneg x)]
  · rw [abs_of_nonneg (absolute_nonneg x)]

theorem isZero_iff (h : HasValue x r) : isZero x = true ↔ r = 0 := by
  constructor
  · exact fun hzero => h.unique (hasValue_of_isZero hzero)
  · rintro rfl
    by_contra hzero
    have hpos := mantissa_pos (Bool.not_eq_true _ ▸ hzero)
    have habs := h.abs_eq
    rw [abs_zero, absolute] at habs
    have hvalue : (0 : ℚ) < mantissa x * 2 ^ exponent x := by positivity
    exact hvalue.ne habs

theorem isNegative_eq (h : HasValue x r) (hr : r ≠ 0) : isNegative x = decide (r < 0) := by
  have habs := abs_pos.mpr hr
  rw [h.abs_eq] at habs
  rw [← h.value]
  cases isNegative x with
  | true => simpa using habs
  | false => simpa using habs.le

theorem magnitude_eq (hx : HasValue x r) (hy : HasValue y r) : magnitude x = magnitude y := by
  have hfraction : (numerator y / denominator y : ℚ) = absolute x := by
    rw [numerator_div_denominator, ← hy.abs_eq, hx.abs_eq]
  rw [← nearestMagnitude_of_absolute hx.finite (denominator_pos y) hfraction]
  exact nearestMagnitude_of_absolute hy.finite (denominator_pos y) (numerator_div_denominator y)

theorem eq_or_isZero (hx : HasValue x r) (hy : HasValue y r) :
    x = y ∨ isZero x = true ∧ isZero y = true := by
  by_cases hr : r = 0
  · exact .inr ⟨hx.isZero_iff.mpr hr, hy.isZero_iff.mpr hr⟩
  · left
    have hlt : magnitude x < infinity := by simpa [isFinite] using hx.finite
    have hlt' : magnitude y < infinity := by simpa [isFinite] using hy.finite
    rw [← ofMagnitude_magnitude hlt.le, ← ofMagnitude_magnitude hlt'.le, hx.isNegative_eq hr,
      hy.isNegative_eq hr, hx.magnitude_eq hy]

end HasValue

/-! ## Values that are numbers -/

theorem mantissa_exponent_ofMagnitude (negative : Bool) {m : ℕ} {e : ℤ} (hc : Canonical m e)
    (hlt : packed m e < infinity) :
    mantissa (ofMagnitude negative (packed m e)) = m ∧
      exponent (ofMagnitude negative (packed m e)) = e := by
  have hmag : magnitude (ofMagnitude negative (packed m e)) = packed m e :=
    magnitude_ofMagnitude hlt.le
  have h53 := hc.mantissa_lt
  have hle := hc.le_exponent
  have hn := hc.normal
  rw [packed, hiddenBit_eq] at hmag
  rw [packed, hiddenBit_eq]
  rcases mantissa_exponent_cases (ofMagnitude negative ((e + 1074).toNat * 2 ^ 52 + m)) with
    ⟨h, hm, he⟩ | ⟨h, hm, he⟩ <;> rw [hm, he] <;> omega

/-- What a mantissa of up to 53 bits and an exponent in range stand for is a number. -/
theorem exists_canonical {k : ℕ} {q : ℤ} (hk : k < 2 ^ 53) (hlo : -1074 ≤ q) (hhi : q ≤ 971) :
    ∃ m e, Canonical m e ∧ packed m e < infinity ∧ (k * 2 ^ q : ℚ) = m * 2 ^ e := by
  rcases Nat.eq_zero_or_pos k with rfl | hpos
  · exact ⟨0, -1074, ⟨by decide, by decide, Or.inr rfl⟩, by decide, by simp⟩
  · have hlog : k.log2 < 53 := (Nat.log2_lt hpos.ne').mpr hk
    -- the mantissa is shifted up to its hidden bit, as far as the exponent allows
    obtain ⟨j, hj⟩ : ∃ j, j = min (52 - k.log2) (q + 1074).toNat := ⟨_, rfl⟩
    have hlt : k * 2 ^ j < 2 ^ 53 := by
      calc k * 2 ^ j < 2 ^ (k.log2 + 1) * 2 ^ j := Nat.mul_lt_mul_of_pos_right Nat.lt_log2_self (by positivity)
        _ = 2 ^ (k.log2 + 1 + j) := (pow_add ..).symm
        _ ≤ 2 ^ 53 := Nat.pow_le_pow_right two_pos (by omega)
    have hnormal : 2 ^ 52 ≤ k * 2 ^ j ∨ q - j = -1074 := by
      rcases Nat.le_total (52 - k.log2) (q + 1074).toNat with h | h
      · left
        calc 2 ^ 52 = 2 ^ k.log2 * 2 ^ j := by rw [← pow_add, show k.log2 + j = 52 by omega]
          _ ≤ k * 2 ^ j := Nat.mul_le_mul_right _ (Nat.log2_self_le hpos.ne')
      · right
        omega
    refine ⟨k * 2 ^ j, q - j, ⟨hlt, by omega, hnormal⟩, ?_, ?_⟩
    · rw [packed, hiddenBit_eq, infinity_eq]
      omega
    · rw [zpow_sub₀ two_ne_zero, zpow_natCast]
      push_cast
      field_simp

/-- A fraction with the value of a number is rounded to a number of exactly that value. -/
theorem hasValue_nearest (negative : Bool) {num den m : ℕ} {e : ℤ} (hden : 0 < den) (hc : Canonical m e)
    (hlt : packed m e < infinity) (h : (num / den : ℚ) = m * 2 ^ e) :
    HasValue (nearest negative num den) (if negative then -(num / den : ℚ) else num / den) := by
  have hnear : nearest negative num den = ofMagnitude negative (packed m e) := by
    rw [nearest, nearestMagnitude_of_canonical hden hc h, Nat.min_eq_left hlt.le]
  obtain ⟨hm, he⟩ := mantissa_exponent_ofMagnitude negative hc hlt
  rw [hnear]
  constructor
  · rw [isFinite, magnitude_ofMagnitude hlt.le]
    simpa using hlt
  · rw [isNegative_ofMagnitude hlt.le, absolute, hm, he, h]

end GCode.Binary64
