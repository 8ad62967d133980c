import GCode.Binary64.Basic
import Mathlib

/-!
# Words of binary64 numbers

A word that is no NaN comes back from the number it stands for, so a number is made from its sign and
its magnitude and taken apart into them again. That packing undoes unpacking is `pack_unpack` of the library, which
no module of Mathlib imports but the one that imports all.
-/

namespace GCode.Binary64

open Float.Model.UnpackedFloat

/-! ## Words and numbers -/

theorem signBit_eq : signBit = 2 ^ 63 := rfl

theorem hiddenBit_eq : hiddenBit = 2 ^ 52 := rfl

theorem infinity_eq : infinity = 2047 * 2 ^ 52 := rfl

theorem isNaNBits_eq_false {b : UInt64} (h : b.toNat % signBit ≤ infinity) :
    @isNaNBits .binary64 b.toBitVec = false := by
  rw [signBit_eq, infinity_eq] at h
  rw [isNaNBits, decide_eq_false_iff_not]
  rintro ⟨hexponent, hmantissa⟩
  apply hmantissa
  have hnat := congrArg BitVec.toNat hexponent
  apply BitVec.eq_of_toNat_eq
  simp only [unpackExponent, unpackMantissa, BitVec.toNat_cast, BitVec.extractLsb_toNat] at hnat ⊢
  change b.toNat >>> 52 % 2 ^ 11 = 2047 at hnat
  change b.toNat >>> 0 % 2 ^ 52 = 0
  simp only [Nat.shiftRight_eq_div_pow] at hnat ⊢
  omega

/-- A word that is no NaN comes back from its number. -/
theorem toBits_ofBits {b : UInt64} (h : b.toNat % signBit ≤ infinity) : (Float.ofBits b).toBits = b := by
  have hpack := @pack_unpack .binary64 b.toBitVec (by decide)
  rw [isNaNBits_eq_false h, if_neg Bool.false_ne_true] at hpack
  change UInt64.ofBitVec (pack .binary64 (unpack .binary64 b.toBitVec)) = b
  rw [hpack]

/-! ## Sign and magnitude -/

theorem toNat_toBits (x : Float) :
    x.toBits.toNat = if isNegative x then signBit + magnitude x else magnitude x := by
  have hlt := x.toBits.toNat_lt
  rw [isNegative, magnitude, signBit_eq]
  by_cases h : 2 ^ 63 ≤ x.toBits.toNat
  · rw [decide_eq_true h, if_pos rfl]
    omega
  · rw [decide_eq_false h, if_neg Bool.false_ne_true]
    omega

theorem toBits_ofMagnitude {negative : Bool} {m : Nat} (h : m ≤ infinity) :
    (ofMagnitude negative m).toBits.toNat = if negative then signBit + m else m := by
  rw [infinity_eq] at h
  have hword : (UInt64.ofNat (if negative then signBit + m else m)).toNat =
      if negative then signBit + m else m := by
    rw [UInt64.toNat_ofNat', Nat.mod_eq_of_lt]
    rw [signBit_eq]
    split <;> omega
  rw [ofMagnitude, toBits_ofBits, hword]
  rw [hword, infinity_eq, signBit_eq]
  split <;> omega

theorem magnitude_ofMagnitude {negative : Bool} {m : Nat} (h : m ≤ infinity) :
    magnitude (ofMagnitude negative m) = m := by
  rw [magnitude, toBits_ofMagnitude h]
  rw [infinity_eq] at h
  rw [signBit_eq]
  split <;> omega

theorem isNegative_ofMagnitude {negative : Bool} {m : Nat} (h : m ≤ infinity) :
    isNegative (ofMagnitude negative m) = negative := by
  rw [isNegative, toBits_ofMagnitude h]
  rw [infinity_eq] at h
  rw [signBit_eq]
  cases negative <;> simp; omega

/-- A number that is no NaN is made of its sign and its magnitude. -/
theorem ofMagnitude_magnitude {x : Float} (h : magnitude x ≤ infinity) :
    ofMagnitude (isNegative x) (magnitude x) = x := by
  apply Float.toBits_inj.mp
  apply UInt64.toNat_inj.mp
  rw [toBits_ofMagnitude h, toNat_toBits]

theorem nearestMagnitude_le_infinity (num den : Nat) : nearestMagnitude num den ≤ infinity := by
  rw [nearestMagnitude]
  split
  · exact Nat.zero_le _
  · exact Nat.min_le_right _ _

/-- Rounding never gives NaN. -/
theorem isNaN_nearest (negative : Bool) (num den : Nat) : isNaN (nearest negative num den) = false := by
  have h := nearestMagnitude_le_infinity num den
  rw [isNaN, nearest, magnitude_ofMagnitude h]
  simpa using h

end GCode.Binary64
