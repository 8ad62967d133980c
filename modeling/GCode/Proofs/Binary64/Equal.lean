import GCode.Proofs.Binary64.Bits

/-!
# Equal numbers

Two numbers are equal if they are the same and no NaN, or if both are zeros.
-/

namespace GCode.Binary64

open Float.Model Float.Model.UnpackedFloat

/-! ## Parts of a word -/

theorem toNat_unpackExponent (x : Float) :
    (@unpackExponent .binary64 x.toBits.toBitVec).toNat = magnitude x / 2 ^ 52 := by
  rw [magnitude, signBit_eq]
  simp only [unpackExponent, BitVec.toNat_cast, BitVec.extractLsb_toNat]
  change x.toBits.toNat >>> 52 % 2 ^ 11 = _
  rw [Nat.shiftRight_eq_div_pow]
  omega

theorem toNat_unpackMantissa (x : Float) :
    (@unpackMantissa .binary64 x.toBits.toBitVec).toNat = magnitude x % 2 ^ 52 := by
  rw [magnitude, signBit_eq]
  simp only [unpackMantissa, BitVec.toNat_cast, BitVec.extractLsb_toNat]
  change x.toBits.toNat >>> 0 % 2 ^ 52 = _
  rw [Nat.shiftRight_zero]
  omega

theorem unpackExponent_eq_ones (x : Float) :
    @unpackExponent .binary64 x.toBits.toBitVec = -1#_ ↔ magnitude x / 2 ^ 52 = 2047 := by
  rw [← BitVec.toNat_inj, toNat_unpackExponent]
  rfl

theorem unpackExponent_eq_zero (x : Float) :
    @unpackExponent .binary64 x.toBits.toBitVec = 0#_ ↔ magnitude x / 2 ^ 52 = 0 := by
  rw [← BitVec.toNat_inj, toNat_unpackExponent]
  rfl

theorem unpackMantissa_eq_zero (x : Float) :
    @unpackMantissa .binary64 x.toBits.toBitVec = 0#_ ↔ magnitude x % 2 ^ 52 = 0 := by
  rw [← BitVec.toNat_inj, toNat_unpackMantissa]
  rfl

/-- What a word stands for, where it is no number or a zero. -/
theorem unpack_special (x : Float) :
    (x.toModel.unpack = .notANumber ↔ isNaN x = true) ∧
      ((∃ s, x.toModel.unpack = .zero s) ↔ isZero x = true) := by
  have hlt : magnitude x < 2 ^ 63 := Nat.mod_lt _ (by decide)
  rw [isNaN, isZero, infinity_eq, decide_eq_true_eq, decide_eq_true_eq]
  change (UnpackedFloat.unpack .binary64 x.toBits.toBitVec = _ ↔ _) ∧
    ((∃ s, UnpackedFloat.unpack .binary64 x.toBits.toBitVec = .zero s) ↔ _)
  simp only [UnpackedFloat.unpack, unpackExponent_eq_ones x, unpackExponent_eq_zero x, unpackMantissa_eq_zero x]
  split
  · split <;> simp <;> omega
  · split
    · split <;> simp <;> omega
    · simp
      omega

/-- A number comes back from its parts. -/
theorem unpack_injective : Function.Injective fun x : Float => x.toModel.unpack := by
  intro x y h
  have hpack (x : Float) : pack .binary64 x.toModel.unpack = x.toModel.toBits.toBitVec :=
    pack_unpack_of_valid x.toModel.valid (by decide)
  have hbits := congrArg (pack .binary64) h
  simp only [hpack] at hbits
  exact Float.toBits_inj.mp (UInt64.toBitVec_inj.mp hbits)

/-- There is only one NaN. -/
theorem eq_of_isNaN {x y : Float} (hx : isNaN x = true) (hy : isNaN y = true) : x = y :=
  unpack_injective (((unpack_special x).1.mpr hx).trans ((unpack_special y).1.mpr hy).symm)

/-! ## Comparing -/

theorem compare_eq_some_eq {u v : UnpackedFloat} :
    u.compare v = some .eq ↔ (u = v ∧ u ≠ .notANumber) ∨ ∃ s t, u = .zero s ∧ v = .zero t := by
  cases u with
  | notANumber => simp [UnpackedFloat.compare]
  | infinity s =>
      cases v with
      | infinity t => cases s <;> cases t <;> simp [UnpackedFloat.compare] <;> rfl
      | _ => cases s <;> simp [UnpackedFloat.compare]
  | zero s =>
      cases v with
      | infinity t => cases t <;> simp [UnpackedFloat.compare]
      | finite t _ _ _ => cases t <;> simp [UnpackedFloat.compare]
      | _ => simp [UnpackedFloat.compare]
  | finite s m e h =>
      cases v with
      | infinity t => cases s <;> cases t <;> simp [UnpackedFloat.compare]
      | finite t _ _ _ =>
          cases s <;> cases t <;> simp [UnpackedFloat.compare, Ordering.then_eq_eq, and_comm]
      | _ => cases s <;> simp [UnpackedFloat.compare]

/-- NaN is equal to nothing, and the two zeros are equal. -/
theorem beq_iff {x y : Float} :
    (x == y) = true ↔ (x = y ∧ isNaN x = false) ∨ (isZero x = true ∧ isZero y = true) := by
  have hcompare : (x == y) = true ↔ x.toModel.unpack.compare y.toModel.unpack = some .eq := by
    change (x.toModel.unpack.compare y.toModel.unpack == some .eq) = true ↔ _
    rw [beq_iff_eq]
  have hsame : x.toModel.unpack = y.toModel.unpack ↔ x = y :=
    ⟨fun h => unpack_injective h, fun h => by rw [h]⟩
  obtain ⟨hnan, hzero⟩ := unpack_special x
  rw [hcompare, compare_eq_some_eq, hsame, ne_eq, hnan, Bool.not_eq_true, ← hzero, ← (unpack_special y).2]
  simp only [exists_and_left, exists_and_right]

end GCode.Binary64
