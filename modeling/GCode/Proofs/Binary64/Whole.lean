import GCode.Number
import GCode.Proofs.Binary64.Value

/-!
# Whole numbers

Integers below `2 ^ 53` in size are binary64 numbers, and every integer is rounded to a whole number.
-/

namespace GCode.Binary64

/-! ## Which numbers are whole -/

theorem whole?_of_absolute {x : Float} {k : ℕ} (hx : isFinite x = true) (h : absolute x = k) :
    whole? x = some (if isNegative x then -(k : ℤ) else k) := by
  have hden := denominator_pos x
  have hnum : numerator x = k * denominator x := by
    have hd : (denominator x : ℚ) ≠ 0 := by exact_mod_cast hden.ne'
    rw [← numerator_div_denominator, div_eq_iff hd] at h
    exact_mod_cast h
  simp [whole?, hx, hnum, Nat.mul_div_cancel k hden]

theorem absolute_of_whole? {x : Float} {n : ℤ} (h : whole? x = some n) :
    isFinite x = true ∧ absolute x = n.natAbs ∧ n = if isNegative x then -(n.natAbs : ℤ) else n.natAbs := by
  rw [whole?] at h
  split at h
  · rename_i hc
    simp only [Bool.and_eq_true, decide_eq_true_eq] at hc
    have hn : n.natAbs = numerator x / denominator x := by
      have hsome := (Option.some.inj h).symm
      generalize numerator x / denominator x = k at hsome
      split at hsome <;> omega
    have hd : (denominator x : ℚ) ≠ 0 := by exact_mod_cast (denominator_pos x).ne'
    have hnum : numerator x = n.natAbs * denominator x := by
      rw [hn]
      exact (Nat.div_mul_cancel (Nat.dvd_of_mod_eq_zero hc.2)).symm
    refine ⟨hc.1, ?_, ?_⟩
    · rw [← numerator_div_denominator, div_eq_iff hd]
      exact_mod_cast hnum
    · rw [hn]
      exact (Option.some.inj h).symm
  · cases h

theorem whole?_eq_some_iff {x : Float} {n : ℤ} : whole? x = some n ↔ HasValue x n := by
  have hsigned (k : ℕ) : (if isNegative x then -(k : ℚ) else k) = n ↔
      (if isNegative x then -(k : ℤ) else k) = n := by
    split <;> norm_cast
  constructor
  · intro h
    obtain ⟨hx, habs, hsign⟩ := absolute_of_whole? h
    exact ⟨hx, by rw [habs, hsigned]; exact hsign.symm⟩
  · intro h
    have habs : absolute x = n.natAbs := by
      rw [← h.abs_eq, Nat.cast_natAbs, Int.cast_abs]
    have hvalue := h.value
    rw [habs, hsigned] at hvalue
    rw [whole?_of_absolute h.finite habs, hvalue]

theorem whole?_of_isZero {x : Float} (h : isZero x = true) : whole? x = some 0 :=
  whole?_eq_some_iff.mpr (by simpa using hasValue_of_isZero h)

/-! ## Whole numbers of up to 53 bits -/

theorem exists_canonical_of_lt {k : ℕ} (h : k < 2 ^ 53) :
    ∃ m e, Canonical m e ∧ packed m e < infinity ∧ (k : ℚ) = m * 2 ^ e := by
  simpa using exists_canonical (q := 0) h (by decide) (by decide)

/-- An integer that is at most `2 ^ 53` in size is a binary64 number. -/
theorem hasValue_ofInt {n : ℤ} (h : n.natAbs ≤ 2 ^ 53) : HasValue (ofInt n) n := by
  obtain ⟨m, e, hc, hlt, hk⟩ : ∃ m e, Canonical m e ∧ packed m e < infinity ∧ (n.natAbs : ℚ) = m * 2 ^ e := by
    rcases Nat.lt_or_eq_of_le h with hk | hk
    · exact exists_canonical_of_lt hk
    · exact ⟨2 ^ 52, 1, ⟨by decide, by decide, Or.inl le_rfl⟩, by decide, by rw [hk]; norm_num⟩
  have hfraction : (n.natAbs / (1 : ℕ) : ℚ) = m * 2 ^ e := by rw [Nat.cast_one, div_one, hk]
  have hvalue := hasValue_nearest (n < 0) Nat.one_pos hc hlt hfraction
  rw [Nat.cast_one, div_one, Nat.cast_natAbs] at hvalue
  rw [ofInt]
  convert hvalue using 1
  by_cases hneg : n < 0
  · rw [decide_eq_true hneg, if_pos rfl, abs_of_neg hneg, Int.cast_neg, neg_neg]
  · rw [decide_eq_false hneg, if_neg Bool.false_ne_true, abs_of_nonneg (not_lt.mp hneg)]

theorem whole?_ofInt {n : ℤ} (h : n.natAbs < 2 ^ 53) : whole? (ofInt n) = some n :=
  whole?_eq_some_iff.mpr (hasValue_ofInt h.le)

theorem exists_whole?_of_exponent_nonneg {x : Float} (hx : isFinite x = true) (he : 0 ≤ exponent x) :
    ∃ n, whole? x = some n := by
  have hden : denominator x = 1 := by
    rw [denominator, show (-exponent x).toNat = 0 by omega]
    rfl
  rw [whole?, hden, Nat.mod_one]
  exact ⟨_, if_pos (by simp [hx])⟩

/-- A number that an integer is rounded to is whole. -/
theorem exists_whole?_of_nearestMagnitude {x : Float} {k : ℕ} (hx : isFinite x = true)
    (h : nearestMagnitude k 1 = magnitude x) : ∃ n, whole? x = some n := by
  have hlt : magnitude x < infinity := by simpa [isFinite] using hx
  rcases Nat.lt_or_ge k (2 ^ 53) with hk | hk
  · obtain ⟨m, e, hc, hmax, hval⟩ := exists_canonical_of_lt hk
    rw [nearestMagnitude_of_canonical Nat.one_pos hc (by rw [Nat.cast_one, div_one, hval]),
      Nat.min_eq_left hmax.le] at h
    obtain ⟨hm, he⟩ := mantissa_exponent_ofMagnitude (isNegative x) hc hmax
    rw [h, ofMagnitude_magnitude hlt.le] at hm he
    exact ⟨_, whole?_of_absolute hx (by rw [absolute, hm, he, hval])⟩
  · -- the last bit of a number from `2 ^ 53` on is worth at least one
    have hlog : 53 < floorLog2 k 1 + 1 := by
      have hhi := (floorLog2_spec (by omega : 0 < k) Nat.one_pos).2
      have hlo : (2 : ℚ) ^ (53 : ℤ) ≤ k := by exact_mod_cast hk
      rw [Nat.cast_one, div_one] at hhi
      exact (zpow_lt_zpow_iff_right₀ one_lt_two).mp (lt_of_le_of_lt hlo hhi)
    rw [nearestMagnitude, if_neg (by omega)] at h
    simp only [hiddenBit_eq] at h
    have hmag : 1075 * 2 ^ 52 ≤ magnitude x := by
      generalize roundDiv _ _ = r at h
      have hq : 1075 ≤ (max (floorLog2 k 1 - 52) (-1074) + 1074).toNat := by omega
      have := Nat.mul_le_mul_right (2 ^ 52) hq
      omega
    apply exists_whole?_of_exponent_nonneg hx
    rcases mantissa_exponent_cases x with ⟨hsub, _, _⟩ | ⟨_, _, he⟩
    · omega
    · rw [he]
      omega

theorem isFinite_ofInt {n : ℤ} (h : n.natAbs < 2 ^ 53) : isFinite (ofInt n) = true :=
  (absolute_of_whole? (whole?_ofInt h)).1

theorem isNegative_ofInt (n : ℤ) : isNegative (ofInt n) = decide (n < 0) :=
  isNegative_ofMagnitude (nearestMagnitude_le_infinity _ _)

theorem isNegative_of_whole?_neg {x : Float} {n : ℤ} (h : whole? x = some n) (hn : n < 0) :
    isNegative x = true ∧ isZero x = false := by
  have hvalue := whole?_eq_some_iff.mp h
  have hneg : (n : ℚ) < 0 := by exact_mod_cast hn
  refine ⟨?_, Bool.eq_false_iff.mpr (mt hvalue.isZero_iff.mp hneg.ne)⟩
  rw [hvalue.isNegative_eq hneg.ne, decide_eq_true hneg]

end GCode.Binary64

namespace GCode.Number

open Binary64

/-- Normalizing gives an integer of up to 53 bits, or leaves the number as it is. -/
theorem normalized_cases (x : Float) :
    (∃ n : ℤ, Binary64.whole? x = some n ∧ n.natAbs < 2 ^ 53 ∧ normalized x = .integer (Int64.ofInt n)) ∨
      normalized x = .decimal x := by
  have hbit : 2 * hiddenBit = 2 ^ 53 := rfl
  rw [normalized]
  split
  · rename_i n hn
    split
    · exact Or.inl ⟨n, hn, by omega, rfl⟩
    · exact Or.inr rfl
  · exact Or.inr rfl

theorem value_integer_ofInt {n : ℤ} (h : n.natAbs < 2 ^ 53) :
    (integer (Int64.ofInt n)).value = ofInt n := by
  rw [value, Int64.toInt_ofInt_of_le (by omega) (by omega)]

theorem normalized_ofInt {n : ℤ} (h : n.natAbs < 2 ^ 53) :
    normalized (ofInt n) = .integer (Int64.ofInt n) := by
  have hbit : 2 * hiddenBit = 2 ^ 53 := rfl
  rw [normalized, whole?_ofInt h]
  exact if_pos (by omega)

/-- A normalized number stays as it is. -/
theorem normalized_value_normalized (x : Float) : normalized (normalized x).value = normalized x := by
  rcases normalized_cases x with ⟨n, _, hn, h⟩ | h
  · rw [h, value_integer_ofInt hn, normalized_ofInt hn]
  · rw [h, value, h]

theorem normalized_of_isZero {x : Float} (h : isZero x = true) : normalized x = .integer 0 := by
  rw [normalized, whole?_of_isZero h]
  rfl

/-- Normalizing forgets nothing but the sign of zero. -/
theorem normalized_eq_iff {x y : Float} :
    normalized x = normalized y ↔ x = y ∨ isZero x = true ∧ isZero y = true := by
  constructor
  · intro h
    rcases normalized_cases x with ⟨m, hm, hmlt, hxm⟩ | hx <;>
      rcases normalized_cases y with ⟨n, hn, hnlt, hyn⟩ | hy
    · rw [hxm, hyn] at h
      have hmn : m = n := by
        have htoInt := congrArg Int64.toInt (Number.integer.inj h)
        rwa [Int64.toInt_ofInt_of_le (by omega) (by omega),
          Int64.toInt_ofInt_of_le (by omega) (by omega)] at htoInt
      exact (whole?_eq_some_iff.mp hm).eq_or_isZero (whole?_eq_some_iff.mp (hmn ▸ hn))
    · rw [hxm, hy] at h
      cases h
    · rw [hx, hyn] at h
      cases h
    · rw [hx, hy] at h
      exact .inl (Number.decimal.inj h)
  · rintro (rfl | ⟨hx, hy⟩)
    · rfl
    · rw [normalized_of_isZero hx, normalized_of_isZero hy]

end GCode.Number
