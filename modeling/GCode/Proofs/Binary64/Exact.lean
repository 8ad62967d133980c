import GCode.Proofs.Binary64.Bits

/-!
# Exact values

The absolute value of a finite number is a rational number, and rounding a fraction of that value gives
the number back.
-/

namespace GCode.Binary64

/-- `|x|` of a finite `x`. -/
def absolute (x : Float) : ℚ :=
  mantissa x * 2 ^ exponent x

theorem absolute_nonneg (x : Float) : 0 ≤ absolute x :=
  mul_nonneg (Nat.cast_nonneg _) (zpow_pos two_pos _).le

/-- `x` is finite and exactly this rational number; both zeros are 0. -/
structure HasValue (x : Float) (r : ℚ) : Prop where
  finite : isFinite x = true
  value : (if isNegative x then -absolute x else absolute x) = r

/-! ## Powers -/

theorem zpow_eq_div {b : ℚ} (e : ℤ) : b ^ e = b ^ e.toNat / b ^ (-e).toNat := by
  rcases Int.le_total 0 e with h | h
  · obtain ⟨k, rfl⟩ := Int.eq_ofNat_of_zero_le h
    simp
  · obtain ⟨k, hk⟩ := Int.eq_ofNat_of_zero_le (Int.neg_nonneg_of_nonpos h)
    have he : e = -(k : ℤ) := by omega
    subst he
    simp

/-- Comparing a fraction with a power of two, without a fraction. -/
theorem shiftLeft_le_shiftLeft_iff {num den : ℕ} (hden : 0 < den) (l : ℤ) :
    den <<< l.toNat ≤ num <<< (-l).toNat ↔ (2 : ℚ) ^ l ≤ num / den := by
  have hd : (0 : ℚ) < den := by exact_mod_cast hden
  have hp : (0 : ℚ) < 2 ^ (-l).toNat := by positivity
  rw [zpow_eq_div, div_le_div_iff₀ hp hd, Nat.shiftLeft_eq, Nat.shiftLeft_eq]
  constructor
  · intro h
    have : ((den * 2 ^ l.toNat : ℕ) : ℚ) ≤ (num * 2 ^ (-l).toNat : ℕ) := by exact_mod_cast h
    push_cast at this
    linarith
  · intro h
    have : ((den * 2 ^ l.toNat : ℕ) : ℚ) ≤ (num * 2 ^ (-l).toNat : ℕ) := by
      push_cast
      linarith
    exact_mod_cast this

theorem log2_bounds {n : ℕ} (h : 0 < n) :
    (2 : ℚ) ^ (n.log2 : ℤ) ≤ n ∧ (n : ℚ) < 2 ^ ((n.log2 : ℤ) + 1) := by
  have h1 : 2 ^ n.log2 ≤ n := Nat.log2_self_le (by omega)
  have h2 : n < 2 ^ (n.log2 + 1) := Nat.lt_log2_self
  constructor
  · rw [zpow_natCast]
    exact_mod_cast h1
  · have : (n.log2 : ℤ) + 1 = ((n.log2 + 1 : ℕ) : ℤ) := by push_cast; rfl
    rw [this, zpow_natCast]
    exact_mod_cast h2

theorem floorLog2_spec {num den : ℕ} (hnum : 0 < num) (hden : 0 < den) :
    (2 : ℚ) ^ floorLog2 num den ≤ num / den ∧ (num / den : ℚ) < 2 ^ (floorLog2 num den + 1) := by
  obtain ⟨hn1, hn2⟩ := log2_bounds hnum
  obtain ⟨hd1, hd2⟩ := log2_bounds hden
  have hd : (0 : ℚ) < den := by exact_mod_cast hden
  have two : (2 : ℚ) ≠ 0 := by norm_num
  -- the difference of the two logarithms is at most one too large
  have hupper : (num / den : ℚ) < 2 ^ ((num.log2 : ℤ) - den.log2 + 1) := by
    rw [div_lt_iff₀ hd]
    calc (num : ℚ) < 2 ^ ((num.log2 : ℤ) + 1) := hn2
      _ = 2 ^ ((num.log2 : ℤ) - den.log2 + 1) * 2 ^ (den.log2 : ℤ) := by
          rw [← zpow_add₀ two]; congr 1; omega
      _ ≤ 2 ^ ((num.log2 : ℤ) - den.log2 + 1) * den :=
          mul_le_mul_of_nonneg_left hd1 (zpow_pos two_pos _).le
  have hlower : (2 : ℚ) ^ ((num.log2 : ℤ) - den.log2 - 1) ≤ num / den := by
    rw [le_div_iff₀ hd]
    calc (2 : ℚ) ^ ((num.log2 : ℤ) - den.log2 - 1) * den
        ≤ 2 ^ ((num.log2 : ℤ) - den.log2 - 1) * 2 ^ ((den.log2 : ℤ) + 1) :=
          mul_le_mul_of_nonneg_left hd2.le (zpow_pos two_pos _).le
      _ = 2 ^ (num.log2 : ℤ) := by rw [← zpow_add₀ two]; congr 1; omega
      _ ≤ num := hn1
  simp only [floorLog2, shiftLeft_le_shiftLeft_iff hden]
  split
  · exact ⟨by assumption, hupper⟩
  · rename_i hnot
    refine ⟨hlower, ?_⟩
    rw [Int.sub_add_cancel]
    exact not_le.mp hnot

/-! ## Mantissas and exponents -/

/-- The mantissa and exponent of a number: a mantissa without a hidden bit has the least exponent. -/
structure Canonical (m : ℕ) (e : ℤ) : Prop where
  mantissa_lt : m < 2 ^ 53
  le_exponent : -1074 ≤ e
  normal : 2 ^ 52 ≤ m ∨ e = -1074

/-- The magnitude that a mantissa and an exponent are stored as. -/
def packed (m : ℕ) (e : ℤ) : ℕ :=
  (e + 1074).toNat * hiddenBit + m

theorem mantissa_exponent_cases (x : Float) :
    (magnitude x < 2 ^ 52 ∧ mantissa x = magnitude x ∧ exponent x = -1074) ∨
      (2 ^ 52 ≤ magnitude x ∧ mantissa x = 2 ^ 52 + magnitude x % 2 ^ 52 ∧
        exponent x = (magnitude x / 2 ^ 52 : ℕ) - 1075) := by
  rw [mantissa, exponent, hiddenBit_eq]
  rcases Nat.lt_or_ge (magnitude x) (2 ^ 52) with h | h
  · left
    rw [if_pos h]
    refine ⟨h, rfl, ?_⟩
    omega
  · right
    rw [if_neg (by omega)]
    refine ⟨h, rfl, ?_⟩
    omega

theorem canonical_mantissa_exponent (x : Float) : Canonical (mantissa x) (exponent x) := by
  rcases mantissa_exponent_cases x with ⟨h, hm, he⟩ | ⟨h, hm, he⟩ <;> rw [hm, he]
  · exact ⟨by omega, by omega, Or.inr rfl⟩
  · exact ⟨by omega, by omega, Or.inl (by omega)⟩

theorem packed_mantissa_exponent (x : Float) : packed (mantissa x) (exponent x) = magnitude x := by
  rw [packed, hiddenBit_eq]
  rcases mantissa_exponent_cases x with ⟨h, hm, he⟩ | ⟨h, hm, he⟩ <;> rw [hm, he] <;> omega

theorem numerator_div_denominator (x : Float) : (numerator x / denominator x : ℚ) = absolute x := by
  simp only [numerator, denominator, absolute, Nat.shiftLeft_eq, zpow_eq_div (exponent x)]
  push_cast
  rw [one_mul, mul_div_assoc]

theorem denominator_pos (x : Float) : 0 < denominator x := by
  simp [denominator, Nat.shiftLeft_eq]

theorem roundDiv_mul {m d : ℕ} (hd : 0 < d) : roundDiv (m * d) d = m := by
  simp [roundDiv, Nat.mul_div_cancel m hd, hd]

/-- The exponent of a canonical pair follows from the power of two below its value. -/
theorem max_of_canonical {v : ℚ} {l : ℤ} {m : ℕ} {e : ℤ} (hlo : 2 ^ l ≤ v) (hhi : v < 2 ^ (l + 1))
    (hc : Canonical m e) (h : v = m * 2 ^ e) : max (l - 52) (-1074) = e := by
  rw [h] at hlo hhi
  have hm53 : (m : ℚ) < 2 ^ (53 : ℤ) := by exact_mod_cast hc.mantissa_lt
  have hup : (2 : ℚ) ^ l < 2 ^ (53 + e) := by
    rw [zpow_add₀ two_ne_zero]
    exact lt_of_le_of_lt hlo (mul_lt_mul_of_pos_right hm53 (zpow_pos two_pos e))
  have hlt := (zpow_lt_zpow_iff_right₀ one_lt_two).mp hup
  have hmin := hc.le_exponent
  rcases hc.normal with hn | he
  · have hm52 : (2 : ℚ) ^ (52 : ℤ) ≤ m := by exact_mod_cast hn
    have hdown : (2 : ℚ) ^ (52 + e) < 2 ^ (l + 1) := by
      rw [zpow_add₀ two_ne_zero]
      exact lt_of_le_of_lt (mul_le_mul_of_nonneg_right hm52 (zpow_pos two_pos e).le) hhi
    have hgt := (zpow_lt_zpow_iff_right₀ one_lt_two).mp hdown
    omega
  · omega

/-- At that exponent the fraction is a whole number. -/
theorem shiftLeft_of_canonical {num den m : ℕ} {e : ℤ} (hden : 0 < den)
    (h : (num / den : ℚ) = m * 2 ^ e) : num <<< (-e).toNat = m * den <<< e.toNat := by
  have hd : (den : ℚ) ≠ 0 := by exact_mod_cast hden.ne'
  have hcast : (num : ℚ) * 2 ^ (-e).toNat = m * (den * 2 ^ e.toNat) := by
    rw [zpow_eq_div, div_eq_iff hd] at h
    rw [h]
    field_simp
  simp only [Nat.shiftLeft_eq]
  exact_mod_cast hcast

theorem canonical_zero {den m : ℕ} {e : ℤ} (hc : Canonical m e)
    (h : ((0 : ℕ) / den : ℚ) = m * 2 ^ e) : packed m e = 0 := by
  have hm : m = 0 := by
    rw [Nat.cast_zero, zero_div, eq_comm, mul_eq_zero] at h
    rcases h with h | h
    · exact_mod_cast h
    · exact absurd h (zpow_pos two_pos e).ne'
  rcases hc.normal with hn | he
  · omega
  · rw [packed, hm, he]
    rfl

/-- A fraction with the value of a canonical pair is rounded to that pair. -/
theorem nearestMagnitude_of_canonical {num den m : ℕ} {e : ℤ} (hden : 0 < den) (hc : Canonical m e)
    (h : (num / den : ℚ) = m * 2 ^ e) : nearestMagnitude num den = min (packed m e) infinity := by
  rw [nearestMagnitude]
  split
  · rename_i hzero
    subst hzero
    rw [canonical_zero hc h, Nat.zero_min]
  · rename_i hzero
    obtain ⟨hlo, hhi⟩ := floorLog2_spec (Nat.pos_of_ne_zero hzero) hden
    have hexponent := max_of_canonical hlo hhi hc h
    have hpos : 0 < den <<< e.toNat := by
      rw [Nat.shiftLeft_eq]
      positivity
    simp only [hexponent, shiftLeft_of_canonical hden h, roundDiv_mul hpos]
    rfl

/-- A fraction with the value of a number is rounded to that number. -/
theorem nearestMagnitude_of_absolute {x : Float} {num den : ℕ} (hx : isFinite x = true)
    (hden : 0 < den) (h : (num / den : ℚ) = absolute x) : nearestMagnitude num den = magnitude x := by
  rw [nearestMagnitude_of_canonical hden (canonical_mantissa_exponent x) h, packed_mantissa_exponent]
  rw [isFinite, decide_eq_true_eq] at hx
  omega

/-! ## Fractions of one value -/

theorem floorLog2_eq_log {num den : ℕ} (hnum : 0 < num) (hden : 0 < den) :
    floorLog2 num den = Int.log 2 (num / den : ℚ) := by
  obtain ⟨hlo, hhi⟩ := floorLog2_spec hnum hden
  have hpos : (0 : ℚ) < num / den := by positivity
  apply le_antisymm
  · exact (Int.zpow_le_iff_le_log Nat.one_lt_two hpos).mp (by exact_mod_cast hlo)
  · have hlt := (Int.lt_zpow_iff_log_lt Nat.one_lt_two hpos).mp (by exact_mod_cast hhi)
    omega

theorem roundDiv_mul_mul {num den k : ℕ} (hk : 0 < k) :
    roundDiv (num * k) (den * k) = roundDiv num den := by
  have hlow : 2 * (num % den * k) < den * k ↔ 2 * (num % den) < den := by
    rw [← mul_assoc, Nat.mul_lt_mul_right hk]
  have hhigh : den * k < 2 * (num % den * k) ↔ den < 2 * (num % den) := by
    rw [← mul_assoc, Nat.mul_lt_mul_right hk]
  simp only [roundDiv, Nat.mul_div_mul_right _ _ hk, Nat.mul_mod_mul_right, hlow, hhigh]

theorem roundDiv_congr {num den num' den' : ℕ} (hden : 0 < den) (hden' : 0 < den')
    (h : num * den' = num' * den) : roundDiv num den = roundDiv num' den' := by
  calc roundDiv num den
      = roundDiv (num * den') (den * den') := (roundDiv_mul_mul hden').symm
    _ = roundDiv (num' * den) (den' * den) := by rw [h, mul_comm den]
    _ = roundDiv num' den' := roundDiv_mul_mul hden

/-- What a fraction is rounded to depends on its value alone. -/
theorem nearestMagnitude_congr {num den num' den' : ℕ} (hden : 0 < den) (hden' : 0 < den')
    (h : (num / den : ℚ) = num' / den') : nearestMagnitude num den = nearestMagnitude num' den' := by
  have hd : (den : ℚ) ≠ 0 := by exact_mod_cast hden.ne'
  have hd' : (den' : ℚ) ≠ 0 := by exact_mod_cast hden'.ne'
  have hcross : num * den' = num' * den := by
    have := (div_eq_div_iff hd hd').mp h
    exact_mod_cast this
  rcases Nat.eq_zero_or_pos num with rfl | hnum
  · have hzero : num' = 0 := by
      rw [Nat.zero_mul, eq_comm, mul_eq_zero] at hcross
      exact hcross.resolve_right hden.ne'
    rw [hzero, nearestMagnitude, nearestMagnitude, if_pos rfl, if_pos rfl]
  · have hnum' : 0 < num' := by
      have := Nat.mul_pos hnum hden'
      rw [hcross] at this
      exact Nat.pos_of_mul_pos_right this
    have hround (e : ℤ) : roundDiv (num <<< (-e).toNat) (den <<< e.toNat) =
        roundDiv (num' <<< (-e).toNat) (den' <<< e.toNat) := by
      simp only [Nat.shiftLeft_eq]
      apply roundDiv_congr (by positivity) (by positivity)
      rw [mul_mul_mul_comm, hcross, mul_mul_mul_comm]
    rw [nearestMagnitude, nearestMagnitude, if_neg hnum.ne', if_neg hnum'.ne',
      floorLog2_eq_log hnum hden, floorLog2_eq_log hnum' hden', h]
    simp only [hround]

end GCode.Binary64
