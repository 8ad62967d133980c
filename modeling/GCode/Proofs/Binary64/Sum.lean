import GCode.Proofs.Binary64.Equal
import GCode.Proofs.Binary64.Value

/-!
# Sums

Two numbers are added at the smaller of their exponents, and the sum is rounded once. So a sum is exact if it is a
number at all.
-/

namespace GCode.Binary64

open Float.Model Float.Model.UnpackedFloat

/-! ## Parts of a number -/

/-- The sign that is kept with the parts of a number. -/
def sign (negative : Bool) : UnpackedFloat.Sign :=
  if negative then .negative else .positive

theorem ofBitVec_unpackSign (x : Float) :
    UnpackedFloat.Sign.ofBitVec (@unpackSign .binary64 x.toBits.toBitVec) = sign (isNegative x) := by
  have hlt := x.toBits.toNat_lt
  have hbit : @unpackSign .binary64 x.toBits.toBitVec = 0#_ ↔ ¬ signBit ≤ x.toBits.toNat := by
    rw [← BitVec.toNat_inj, signBit_eq]
    simp only [unpackSign, BitVec.toNat_cast, BitVec.extractLsb_toNat]
    change x.toBits.toNat >>> 63 % 2 ^ 1 = 0 ↔ _
    rw [Nat.shiftRight_eq_div_pow]
    omega
  simp only [UnpackedFloat.Sign.ofBitVec, hbit, sign, isNegative, decide_eq_true_eq, ite_not]

theorem unpack_of_isZero {x : Float} (h : isZero x = true) : x.toModel.unpack = .zero (sign (isNegative x)) := by
  rw [isZero, decide_eq_true_eq] at h
  change UnpackedFloat.unpack .binary64 x.toBits.toBitVec = _
  simp only [UnpackedFloat.unpack, unpackExponent_eq_ones x, unpackExponent_eq_zero x, unpackMantissa_eq_zero x,
    ofBitVec_unpackSign, h]
  rfl

theorem unpack_of_finite {x : Float} (hx : isFinite x = true) (hpos : 0 < mantissa x) :
    x.toModel.unpack = .finite (sign (isNegative x)) (mantissa x) (exponent x) hpos := by
  rw [isFinite, decide_eq_true_eq, infinity_eq] at hx
  have hfinite : ¬ magnitude x / 2 ^ 52 = 2047 := by omega
  have hbias : Format.binary64.exponentBias = 1023 := rfl
  change UnpackedFloat.unpack .binary64 x.toBits.toBitVec = _
  simp only [UnpackedFloat.unpack, unpackExponent_eq_ones x, unpackExponent_eq_zero x, unpackMantissa_eq_zero x,
    if_neg hfinite, ofBitVec_unpackSign]
  rcases mantissa_exponent_cases x with ⟨h, hm, he⟩ | ⟨h, hm, he⟩
  · rw [if_pos (by omega), dif_neg (by omega)]
    simp only [UnpackedFloat.finite.injEq, toNat_unpackExponent, toNat_unpackMantissa, hm, he, hbias]
    exact ⟨trivial, by omega, by omega⟩
  · have hbits : (1#1).toNat <<< 52 ||| magnitude x % 2 ^ 52 = 2 ^ 52 + magnitude x % 2 ^ 52 :=
      (Nat.shiftLeft_add_eq_or_of_lt (Nat.mod_lt _ (by decide)) 1).symm
    rw [if_neg (by omega)]
    simp only [UnpackedFloat.finite.injEq, toNat_unpackExponent, BitVec.toNat_append, toNat_unpackMantissa, hm, he,
      hbias]
    exact ⟨trivial, hbits, by omega⟩

theorem ofModel_pack_unpack (x : Float) : Float.ofModel (Float.Model.pack x.toModel.unpack) = x := by
  apply Float.toBits_inj.mp
  exact congrArg UInt64.ofBitVec (pack_unpack_of_valid x.toModel.valid (by decide))

/-! ## Rounding -/

theorem shiftRight_mul (m k : ℕ) :
    (⟨m * 2 ^ k, false, false⟩ : ExtendedMantissa) >>> k = ⟨m, false, false⟩ := by
  induction k generalizing m with
  | zero => rw [pow_zero, mul_one]; rfl
  | succ k ih =>
      have hstep : (⟨m * 2 ^ (k + 1), false, false⟩ : ExtendedMantissa) >>> (k + 1) =
          ((⟨m * 2 ^ (k + 1), false, false⟩ : ExtendedMantissa) >>> k).shiftRightOne := rfl
      rw [hstep, pow_succ', ← mul_assoc, ih]
      simp [ExtendedMantissa.shiftRightOne]

theorem targetExponent_of_canonical {k m : ℕ} {q e : ℤ} (hm : 0 < m) (hc : Canonical m e)
    (h : (k * 2 ^ q : ℚ) = m * 2 ^ e) : Format.binary64.targetExponent (totalExponent k q) = e := by
  have hvalue : (0 : ℚ) < k * 2 ^ q := by
    rw [h]
    positivity
  have hk : 0 < k := by exact_mod_cast (pos_iff_pos_of_mul_pos hvalue).mpr (zpow_pos two_pos q)
  obtain ⟨hlo, hhi⟩ := log2_bounds hk
  have hmax : max ((k.log2 : ℤ) + q - 52) (-1074) = e := by
    apply max_of_canonical _ _ hc h
    · rw [zpow_add₀ two_ne_zero]
      exact mul_le_mul_of_nonneg_right hlo (zpow_pos two_pos q).le
    · rw [add_right_comm, zpow_add₀ two_ne_zero]
      exact mul_lt_mul_of_pos_right hhi (zpow_pos two_pos q)
  have hbits : (Format.binary64.mantissaBits : ℤ) = 53 := rfl
  have hmin : Format.binary64.minExponent = -1074 := rfl
  rw [Format.targetExponent, totalExponent, hbits, hmin, ← hmax]
  omega

/-- A shift to the exponent of a canonical pair loses nothing. -/
theorem shiftToTargetExponent_of_canonical {k m : ℕ} {q e : ℤ} (hm : 0 < m) (hc : Canonical m e)
    (hq : q ≤ e) (h : (k * 2 ^ q : ℚ) = m * 2 ^ e) :
    shiftToTargetExponent .binary64 k q .exact = (⟨m, false, false⟩, e) := by
  rw [shiftToTargetExponent, targetExponent_of_canonical hm hc h, shiftToExponent]
  obtain ⟨j, rfl⟩ := Int.le.dest hq
  have hkm : k = m * 2 ^ j := by
    rw [zpow_add₀ two_ne_zero, zpow_natCast, mul_comm (2 ^ q : ℚ), ← mul_assoc] at h
    exact_mod_cast mul_right_cancel₀ (zpow_pos two_pos q).ne' h
  simp only [add_sub_cancel_left, Int.toNat_natCast, ExtendedMantissa.ofMantissaAndAccuracy]
  rw [hkm, shiftRight_mul]

theorem decreaseExponent_eq (k : ℕ) (q t : ℤ) :
    (decreaseExponent k q t).2 = min q t ∧
      ((decreaseExponent k q t).1 * 2 ^ min q t : ℚ) = k * 2 ^ q := by
  have hmin : q - (q - t).toNat = min q t := by omega
  refine ⟨hmin, ?_⟩
  rw [decreaseExponent, ← hmin, Nat.shiftLeft_eq, zpow_sub₀ two_ne_zero, zpow_natCast]
  push_cast
  field_simp

/-- What has the value of a canonical pair is rounded to that pair. -/
theorem round_of_canonical {k m : ℕ} {q e : ℤ} (s : UnpackedFloat.Sign) (hm : 0 < m) (hc : Canonical m e)
    (h : (k * 2 ^ q : ℚ) = m * 2 ^ e) : UnpackedFloat.round .binary64 s k q = .finite s m e hm := by
  obtain ⟨hexp, hvalue⟩ := decreaseExponent_eq k q e
  rw [h, ← hexp] at hvalue
  have hfirst := shiftToTargetExponent_of_canonical hm hc (hexp ▸ min_le_right _ _) hvalue
  have hsecond := shiftToTargetExponent_of_canonical hm hc le_rfl rfl
  rw [UnpackedFloat.round, targetExponent_of_canonical hm hc h]
  simp only [roundWithAccuracy, hfirst, ExtendedMantissa.roundedMantissa, ExtendedMantissa.accuracy,
    Accuracy.roundToNearestEven, hsecond]
  exact dif_neg hm.ne'

theorem normalize_of_canonical {n : ℤ} {m : ℕ} {q e : ℤ} {negative : Bool} (hm : 0 < m) (hc : Canonical m e)
    (h : (n * 2 ^ q : ℚ) = if negative then -(m * 2 ^ e : ℚ) else m * 2 ^ e) (s : UnpackedFloat.Sign) :
    UnpackedFloat.normalize .binary64 n q s = .finite (sign negative) m e hm := by
  have hvalue : (0 : ℚ) < m * 2 ^ e := by positivity
  have hq : (0 : ℚ) < 2 ^ q := zpow_pos two_pos q
  cases negative with
  | true =>
      rw [if_pos rfl] at h
      have hn : n < 0 := by
        have hneg : (n * 2 ^ q : ℚ) < 0 := h ▸ neg_neg_of_pos hvalue
        exact_mod_cast neg_of_mul_neg_left hneg hq.le
      have habs : (((-n).toNat : ℕ) : ℚ) = -n := by
        exact_mod_cast congrArg (Int.cast (R := ℚ)) (Int.toNat_of_nonneg (by omega : 0 ≤ -n))
      rw [UnpackedFloat.normalize, compare_lt_iff_lt.mpr hn]
      exact round_of_canonical .negative hm hc (by rw [habs, neg_mul, h, neg_neg])
  | false =>
      rw [if_neg Bool.false_ne_true] at h
      have hn : 0 < n := by
        have hpos : (0 : ℚ) < n * 2 ^ q := h ▸ hvalue
        exact_mod_cast pos_of_mul_pos_left hpos hq.le
      have habs : ((n.toNat : ℕ) : ℚ) = n := by
        exact_mod_cast congrArg (Int.cast (R := ℚ)) (Int.toNat_of_nonneg hn.le)
      rw [UnpackedFloat.normalize, compare_gt_iff_gt.mpr hn]
      exact round_of_canonical .positive hm hc (by rw [habs, h])

/-! ## Adding -/

theorem hasValue_zero (s : UnpackedFloat.Sign) : HasValue (Float.ofModel (Float.Model.pack (.zero s))) 0 := by
  apply hasValue_of_isZero
  cases s <;> decide

theorem HasValue.signed {x : Float} {r : ℚ} (hx : HasValue x r) :
    (((sign (isNegative x)).apply (mantissa x) : ℤ) * 2 ^ exponent x : ℚ) = r := by
  rw [← hx.value, absolute]
  cases isNegative x <;> simp [sign, UnpackedFloat.Sign.apply]

theorem apply_decreaseExponent (s : UnpackedFloat.Sign) (k : ℕ) {q t : ℤ} (h : t ≤ q) :
    ((s.apply (decreaseExponent k q t).1 : ℤ) * 2 ^ t : ℚ) = (s.apply k : ℤ) * 2 ^ q := by
  have hvalue := (decreaseExponent_eq k q t).2
  rw [min_eq_right h] at hvalue
  cases s <;> simp [UnpackedFloat.Sign.apply, hvalue]

theorem add_eq (x y : Float) : x + y =
    Float.ofModel (Float.Model.pack (UnpackedFloat.add .binary64 x.toModel.unpack y.toModel.unpack)) :=
  rfl

/-- Where both terms have a mantissa, the sum of the shifted mantissas is rounded. -/
theorem HasValue.add_of_nonzero {x y z : Float} {r s : ℚ} (hx : HasValue x r) (hy : HasValue y s)
    (hz : HasValue z (r + s)) (hxzero : isZero x = false) (hyzero : isZero y = false) :
    HasValue (x + y) (r + s) := by
  obtain ⟨q, hq⟩ : ∃ q, q = min (exponent x) (exponent y) := ⟨_, rfl⟩
  obtain ⟨n, hn⟩ : ∃ n : ℤ, n =
      (sign (isNegative x)).apply (decreaseExponent (mantissa x) (exponent x) q).1 +
        (sign (isNegative y)).apply (decreaseExponent (mantissa y) (exponent y) q).1 := ⟨_, rfl⟩
  have hvalue : (n * 2 ^ q : ℚ) = r + s := by
    rw [hn, Int.cast_add, add_mul, apply_decreaseExponent _ _ (hq ▸ min_le_left _ _),
      apply_decreaseExponent _ _ (hq ▸ min_le_right _ _), hx.signed, hy.signed]
  have hadd : UnpackedFloat.add .binary64 x.toModel.unpack y.toModel.unpack =
      UnpackedFloat.normalize .binary64 n q .positive := by
    rw [unpack_of_finite hx.finite (mantissa_pos hxzero), unpack_of_finite hy.finite (mantissa_pos hyzero), hn, hq]
    rfl
  rw [add_eq, hadd]
  cases hzero : isZero z with
  | true =>
      have hsum := hz.unique (hasValue_of_isZero hzero)
      have hn0 : n = 0 := by
        rw [hsum, mul_eq_zero, or_iff_left (zpow_pos two_pos q).ne'] at hvalue
        exact_mod_cast hvalue
      -- terms that cancel leave the positive zero
      rw [hsum, hn0]
      exact hasValue_zero .positive
  | false =>
      have hm := mantissa_pos hzero
      rw [normalize_of_canonical hm (canonical_mantissa_exponent z) (hvalue.trans hz.value.symm),
        ← unpack_of_finite hz.finite hm, ofModel_pack_unpack]
      exact hz

/-- A sum that is a number is exact. -/
theorem HasValue.add {x y z : Float} {r s : ℚ} (hx : HasValue x r) (hy : HasValue y s)
    (hz : HasValue z (r + s)) : HasValue (x + y) (r + s) := by
  cases hxzero : isZero x with
  | true =>
      rw [hx.unique (hasValue_of_isZero hxzero), zero_add, add_eq, unpack_of_isZero hxzero]
      cases hyzero : isZero y with
      | true =>
          rw [hy.unique (hasValue_of_isZero hyzero), unpack_of_isZero hyzero, UnpackedFloat.add]
          split <;> exact hasValue_zero _
      | false =>
          have hfinite := unpack_of_finite hy.finite (mantissa_pos hyzero)
          rw [hfinite, UnpackedFloat.add, ← hfinite, ofModel_pack_unpack]
          · exact hy
          all_goals simp
  | false =>
      cases hyzero : isZero y with
      | true =>
          have hfinite := unpack_of_finite hx.finite (mantissa_pos hxzero)
          rw [hy.unique (hasValue_of_isZero hyzero), add_zero, add_eq, unpack_of_isZero hyzero, hfinite,
            UnpackedFloat.add, ← hfinite, ofModel_pack_unpack]
          · exact hx
          all_goals simp
      | false => exact hx.add_of_nonzero hy hz hxzero hyzero

end GCode.Binary64
