import GCode.Binary64.Modulo
import GCode.Proofs.Binary64.Sum

/-!
# Remainders

What is left of one number when another is taken away as often as it fits is a number, so a remainder is exact. The
floored remainder is exact if it is a number at all.
-/

namespace GCode.Binary64

/-! ## Finite numbers -/

theorem isNaN_of_isFinite {x : Float} (h : isFinite x = true) : isNaN x = false := by
  rw [isFinite, decide_eq_true_eq] at h
  rw [isNaN, decide_eq_false_iff_not]
  omega

theorem exponent_le_of_isFinite {x : Float} (h : isFinite x = true) : exponent x ≤ 971 := by
  rw [isFinite, decide_eq_true_eq, infinity_eq] at h
  rcases mantissa_exponent_cases x with ⟨_, _, he⟩ | ⟨_, _, he⟩ <;> omega

/-! ## The remainder towards zero -/

theorem mantissaAt_exponent (x : Float) : mantissaAt x (exponent x) = mantissa x := by
  rw [mantissaAt, sub_self]
  rfl

theorem absolute_eq_mantissaAt {x : Float} {e : ℤ} (h : e ≤ exponent x) :
    absolute x = mantissaAt x e * 2 ^ e := by
  obtain ⟨j, hj⟩ := Int.le.dest h
  rw [absolute, mantissaAt, ← hj, add_sub_cancel_left, Int.toNat_natCast, Nat.shiftLeft_eq,
    zpow_add₀ two_ne_zero, zpow_natCast]
  push_cast
  ring

/-- The mantissas leave a remainder of up to 53 bits, since one of them is not shifted. -/
theorem mantissaAt_mod_lt (x : Float) {y : Float} {e : ℤ} (he : e = min (exponent x) (exponent y))
    (hy : 0 < mantissaAt y e) : mantissaAt x e % mantissaAt y e < 2 ^ 53 := by
  rcases min_choice (exponent x) (exponent y) with h | h
  · rw [he, h, mantissaAt_exponent]
    exact lt_of_le_of_lt (Nat.mod_le _ _) (canonical_mantissa_exponent x).mantissa_lt
  · have hlt := Nat.mod_lt (mantissaAt x e) hy
    rw [he, h, mantissaAt_exponent] at hlt ⊢
    exact hlt.trans (canonical_mantissa_exponent y).mantissa_lt

/-- The absolute values leave the absolute value of the remainder. -/
theorem hasValue_finiteRemainder {x y : Float} (hx : isFinite x = true) (hy : isZero y = false) :
    ∃ (q : ℕ) (t : ℚ), absolute x = absolute y * q + t ∧ 0 ≤ t ∧ t < absolute y ∧
      HasValue (finiteRemainder x y) (if isNegative x then -t else t) := by
  obtain ⟨e, he⟩ : ∃ e, e = min (exponent x) (exponent y) := ⟨_, rfl⟩
  have hxe : e ≤ exponent x := he ▸ min_le_left _ _
  have hye : e ≤ exponent y := he ▸ min_le_right _ _
  have hpos : 0 < mantissaAt y e := by
    have hm := mantissa_pos hy
    rw [mantissaAt, Nat.shiftLeft_eq]
    positivity
  have hlt := mantissaAt_mod_lt x he hpos
  rw [finiteRemainder, ← he, absolute_eq_mantissaAt hxe, absolute_eq_mantissaAt hye]
  generalize mantissaAt x e = a at hlt ⊢
  generalize mantissaAt y e = b at hpos hlt ⊢
  -- a negative exponent is in the denominator of the fraction that is rounded
  have hfraction : (((a % b) <<< e.toNat : ℕ) / (1 <<< (-e).toNat : ℕ) : ℚ) = (a % b : ℕ) * 2 ^ e := by
    rw [zpow_eq_div, Nat.shiftLeft_eq, Nat.shiftLeft_eq, one_mul]
    push_cast
    ring
  have hlo : -1074 ≤ e :=
    he ▸ le_min (canonical_mantissa_exponent x).le_exponent (canonical_mantissa_exponent y).le_exponent
  obtain ⟨m, e', hc, hmax, hvalue⟩ := exists_canonical hlt hlo (hxe.trans (exponent_le_of_isFinite hx))
  have hnear := hasValue_nearest (isNegative x) (by simp [Nat.shiftLeft_eq]) hc hmax (hfraction.trans hvalue)
  rw [hfraction] at hnear
  have hdiv : (a : ℚ) = b * (a / b : ℕ) + (a % b : ℕ) := by exact_mod_cast (Nat.div_add_mod a b).symm
  have hmod : ((a % b : ℕ) : ℚ) < b := by exact_mod_cast Nat.mod_lt a hpos
  refine ⟨a / b, (a % b : ℕ) * 2 ^ e, ?_, by positivity, ?_, hnear⟩
  · rw [hdiv]
    ring
  · exact mul_lt_mul_of_pos_right hmod (zpow_pos two_pos e)

/-- A multiple of the divisor is taken away, and less than the divisor is left. -/
theorem hasValue_remainder {x y : Float} {r s : ℚ} (hx : HasValue x r) (hy : HasValue y s) (hs : s ≠ 0) :
    ∃ q : ℤ, HasValue (remainder x y) (r - s * q) ∧ |r - s * q| < |s| := by
  have hyzero : isZero y = false := Bool.eq_false_iff.mpr (mt hy.isZero_iff.mp hs)
  have hfinite : remainder x y = finiteRemainder x y := by
    simp [remainder, isNaN_of_isFinite hx.finite, isNaN_of_isFinite hy.finite, hx.finite, hy.finite, hyzero]
  obtain ⟨q, t, hdiv, hnonneg, hlt, hvalue⟩ := hasValue_finiteRemainder hx.finite hyzero
  refine ⟨if isNegative x = isNegative y then q else -q, ?_⟩
  have hleft : r - s * ((if isNegative x = isNegative y then q else -q : ℤ) : ℚ) =
      if isNegative x then -t else t := by
    rw [← hx.value, ← hy.value, hdiv]
    cases isNegative x <;> cases isNegative y <;> simp
  rw [hleft, hfinite, hy.abs_eq]
  refine ⟨hvalue, ?_⟩
  split
  · rwa [abs_neg, abs_of_nonneg hnonneg]
  · rwa [abs_of_nonneg hnonneg]

/-! ## The floored remainder -/

theorem floor_div_of_abs_lt {r s : ℚ} {q : ℤ} (hs : s ≠ 0) (h : |r - s * q| < |s|) :
    ⌊r / s⌋ = if (r - s * q) * s < 0 then q - 1 else q := by
  have hratio : r / s = q + (r - s * q) / s := by
    field_simp
    ring
  have hone : |(r - s * q) / s| < 1 := by
    rw [abs_div]
    exact (div_lt_one (abs_pos.mpr hs)).mpr h
  obtain ⟨hlo, hhi⟩ := abs_lt.mp hone
  have hsign : (r - s * q) * s < 0 ↔ (r - s * q) / s < 0 := by
    rw [mul_neg_iff, div_neg_iff]
  rw [Int.floor_eq_iff, hratio]
  split
  · rename_i hneg
    have hneg' := hsign.mp hneg
    push_cast
    constructor <;> linarith
  · rename_i hneg
    have hneg' := mt hsign.mpr hneg
    constructor <;> linarith

/-- A remainder is moved if it is on the other side of zero than the divisor. -/
theorem moved_iff {x y : Float} {t s : ℚ} (hx : HasValue x t) (hy : HasValue y s) (hs : s ≠ 0) :
    (!isZero x && isNegative x != isNegative y) = true ↔ t * s < 0 := by
  by_cases ht : t = 0
  · simp [hx.isZero_iff.mpr ht, ht]
  · have hzero : isZero x = false := Bool.eq_false_iff.mpr (mt hx.isZero_iff.mp ht)
    rw [hzero, hx.isNegative_eq ht, hy.isNegative_eq hs, mul_neg_iff]
    rcases lt_or_gt_of_ne ht with h | h <;> rcases lt_or_gt_of_ne hs with h' | h' <;>
      simp [h, h', h.not_gt, h'.not_gt]

/-- The floored remainder is exact if it is a number. -/
theorem hasValue_modulo {x y z : Float} {r s : ℚ} (hx : HasValue x r) (hy : HasValue y s) (hs : s ≠ 0)
    (hz : HasValue z (r - s * ⌊r / s⌋)) : HasValue (modulo x y) (r - s * ⌊r / s⌋) := by
  obtain ⟨q, hrem, hlt⟩ := hasValue_remainder hx hy hs
  rw [floor_div_of_abs_lt hs hlt] at hz ⊢
  simp only [modulo, moved_iff hrem hy hs]
  split
  · rename_i hmoved
    rw [if_pos hmoved] at hz
    have hsum : r - s * (q - 1 : ℤ) = (r - s * q) + s := by
      push_cast
      ring
    rw [hsum] at hz ⊢
    exact hrem.add hy hz
  · exact hrem

end GCode.Binary64
