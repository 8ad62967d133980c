import GCode.Proofs.Binary64.Remainder
import GCode.Proofs.Binary64.Whole
import GCode.Value.Apply

/-!
# Modulo on whole numbers

On whole numbers of up to 53 bits the operator leaves the floored remainder: zero, or a whole number with the sign of
the divisor.
-/

namespace GCode

open Binary64

/-! ## Floored remainders of integers -/

theorem cast_sub_mul_floor {a b : ℤ} (hb : b ≠ 0) :
    ((a - b * ⌊(a / b : ℚ)⌋ : ℤ) : ℚ) = b * Int.fract (a / b : ℚ) := by
  have hb' : (b : ℚ) ≠ 0 := by exact_mod_cast hb
  rw [Int.fract]
  push_cast
  field_simp

theorem abs_sub_mul_floor_lt {a b : ℤ} (hb : b ≠ 0) : |a - b * ⌊(a / b : ℚ)⌋| < |b| := by
  have hpos : (0 : ℚ) < |(b : ℚ)| := abs_pos.mpr (by exact_mod_cast hb)
  have hlt : |((a - b * ⌊(a / b : ℚ)⌋ : ℤ) : ℚ)| < |(b : ℚ)| := by
    rw [cast_sub_mul_floor hb, abs_mul, abs_of_nonneg (Int.fract_nonneg (a / b : ℚ))]
    exact mul_lt_of_lt_one_right hpos (Int.fract_lt_one _)
  exact_mod_cast hlt

theorem sign_sub_mul_floor {a b : ℤ} (hb : b ≠ 0) (hne : a - b * ⌊(a / b : ℚ)⌋ ≠ 0) :
    (a - b * ⌊(a / b : ℚ)⌋).sign = b.sign := by
  have hvalue := cast_sub_mul_floor (a := a) hb
  generalize a - b * ⌊(a / b : ℚ)⌋ = m at hvalue hne ⊢
  have hfract : 0 < Int.fract (a / b : ℚ) := by
    refine lt_of_le_of_ne (Int.fract_nonneg _) fun hzero => hne ?_
    rw [← hzero, mul_zero] at hvalue
    exact_mod_cast hvalue
  rcases lt_or_gt_of_ne hb with hneg | hpos
  · have hm : m < 0 := by
      have hmul : (m : ℚ) < 0 := hvalue ▸ mul_neg_of_neg_of_pos (by exact_mod_cast hneg) hfract
      exact_mod_cast hmul
    rw [Int.sign_eq_neg_one_of_neg hm, Int.sign_eq_neg_one_of_neg hneg]
  · have hm : 0 < m := by
      have hmul : (0 : ℚ) < m := hvalue ▸ mul_pos (by exact_mod_cast hpos) hfract
      exact_mod_cast hmul
    rw [Int.sign_eq_one_of_pos hm, Int.sign_eq_one_of_pos hpos]

/-! ## The operator -/

namespace BinaryOperator

/-- A finite result is no error, unless it is a quotient by zero. -/
theorem apply_eq_ok {op : BinaryOperator} {x y : Float} {r : ℚ} (hy : isZero y = false)
    (h : HasValue (op.function x y) r) : op.apply x y = .ok (op.function x y) := by
  simp [apply, hy, h.finite]

/-- On whole numbers of up to 53 bits the operator gives `a - b * ⌊a / b⌋`, which is zero or has the sign of `b`, and
is smaller than `b`. -/
theorem apply_modulo_whole {a b : ℤ} (ha : a.natAbs ≤ 2 ^ 53) (hb : b.natAbs ≤ 2 ^ 53) (hne : b ≠ 0) :
    (HasValue (ofInt a) a ∧ HasValue (ofInt b) b) ∧
      (∀ x y, HasValue x a → HasValue y b →
        ∃ z, modulo.apply x y = .ok z ∧ HasValue z (a - b * ⌊(a / b : ℚ)⌋ : ℤ)) ∧
      (a - b * ⌊(a / b : ℚ)⌋ = 0 ∨ (a - b * ⌊(a / b : ℚ)⌋).sign = b.sign) ∧
      |a - b * ⌊(a / b : ℚ)⌋| < |b| := by
  have hlt := abs_sub_mul_floor_lt (a := a) hne
  refine ⟨⟨hasValue_ofInt ha, hasValue_ofInt hb⟩, fun x y hx hy => ?_, ?_, hlt⟩
  · have hne' : (b : ℚ) ≠ 0 := by exact_mod_cast hne
    have hyzero : isZero y = false := Bool.eq_false_iff.mpr (mt hy.isZero_iff.mp hne')
    have hsize : (a - b * ⌊(a / b : ℚ)⌋).natAbs ≤ 2 ^ 53 := by
      rw [Int.abs_eq_natAbs, Int.abs_eq_natAbs] at hlt
      omega
    have hz := hasValue_ofInt hsize
    have hvalue : HasValue (modulo.function x y) (a - b * ⌊(a / b : ℚ)⌋ : ℤ) := by
      push_cast at hz ⊢
      exact hasValue_modulo hx hy hne' hz
    exact ⟨_, apply_eq_ok hyzero hvalue, hvalue⟩
  · by_cases hzero : a - b * ⌊(a / b : ℚ)⌋ = 0
    · exact .inl hzero
    · exact .inr (sign_sub_mul_floor hne hzero)

/-- All signs, and the ends of the range. -/
theorem apply_modulo_whole_ends :
    (∃ z, modulo.apply (ofInt (-7)) (ofInt 3) = .ok z ∧ HasValue z (2 : ℤ)) ∧
      (∃ z, modulo.apply (ofInt 7) (ofInt (-3)) = .ok z ∧ HasValue z (-2 : ℤ)) ∧
      ∃ z, modulo.apply (ofInt (2 ^ 53)) (ofInt (1 - 2 ^ 53)) = .ok z ∧ HasValue z (2 - 2 ^ 53 : ℤ) := by
  have hleft : (-7 : ℤ) - 3 * ⌊((-7 : ℤ) / (3 : ℤ) : ℚ)⌋ = 2 := by norm_num
  have hright : (7 : ℤ) - -3 * ⌊((7 : ℤ) / (-3 : ℤ) : ℚ)⌋ = -2 := by norm_num
  have hends : (2 ^ 53 : ℤ) - (1 - 2 ^ 53) * ⌊((2 ^ 53 : ℤ) / (1 - 2 ^ 53 : ℤ) : ℚ)⌋ = 2 - 2 ^ 53 := by norm_num
  obtain ⟨⟨hx, hy⟩, hvalue, _⟩ := apply_modulo_whole (a := -7) (b := 3) (by decide) (by decide) (by decide)
  obtain ⟨⟨hx', hy'⟩, hvalue', _⟩ := apply_modulo_whole (a := 7) (b := -3) (by decide) (by decide) (by decide)
  obtain ⟨⟨hx'', hy''⟩, hvalue'', _⟩ :=
    apply_modulo_whole (a := 2 ^ 53) (b := 1 - 2 ^ 53) (by decide) (by decide) (by decide)
  exact ⟨hleft ▸ hvalue _ _ hx hy, hright ▸ hvalue' _ _ hx' hy', hends ▸ hvalue'' _ _ hx'' hy''⟩

end BinaryOperator

end GCode
