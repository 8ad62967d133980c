import GCode.Proofs.Binary64.Equal
import GCode.Proofs.Shape

/-!
# Printed numbers

The text of a finite number spells a numeral, and that numeral is the number again.
-/

namespace GCode

/-! ## Shortest decimals -/

namespace Decimal

theorem magnitude_exact {x : Float} (hx : Binary64.isFinite x = true) :
    (exact x).magnitude = Binary64.magnitude x := by
  apply Binary64.nearestMagnitude_of_absolute hx (by simp)
  have hten : (10 : ℚ) ^ (-Binary64.exponent x).toNat =
      5 ^ (-Binary64.exponent x).toNat * 2 ^ (-Binary64.exponent x).toNat := by
    rw [← mul_pow]
    norm_num
  rw [← Binary64.numerator_div_denominator]
  simp only [exact, Binary64.denominator, Nat.shiftLeft_eq, Nat.pow_eq, Int.toNat_neg_natCast, pow_zero,
    mul_one, one_mul, neg_neg, Int.toNat_natCast]
  push_cast
  rw [hten]
  field_simp

/-- The shortest decimal of a finite number reads back as that number. -/
theorem magnitude_shortest {x : Float} (hx : Binary64.isFinite x = true) :
    (shortest x).magnitude = Binary64.magnitude x := by
  rw [shortest]
  split
  · rename_i hzero
    have hmag : Binary64.magnitude x = 0 := by simpa [Binary64.isZero] using hzero
    rw [hmag]
    rfl
  · cases hfind : (grids x).findSome? fun k =>
        (neighbours x k).find? fun d => d.magnitude = Binary64.magnitude x with
    | none => exact magnitude_exact hx
    | some d =>
        obtain ⟨k, _, hk⟩ := List.exists_of_findSome?_eq_some hfind
        simpa using List.find?_some hk

/-- The shortest decimal of a number that is not whole has digits behind the point. -/
theorem exponent_shortest_neg {x : Float} (hx : Binary64.isFinite x = true)
    (hwhole : Binary64.whole? x = none) : (shortest x).exponent < 0 := by
  by_contra hexp
  have hread := magnitude_shortest hx
  rw [magnitude, show (-(shortest x).exponent).toNat = 0 by omega] at hread
  obtain ⟨n, hn⟩ := Binary64.exists_whole?_of_nearestMagnitude hx hread
  rw [hwhole] at hn
  cases hn

/-! ## Digits -/

theorem isDigit_of_mem_paddedDigits {width n : ℕ} {c : Char} (h : c ∈ paddedDigits width n) :
    c.isDigit = true := by
  rcases List.mem_append.mp h with hzero | hdigit
  · rw [List.eq_of_mem_replicate hzero]
    rfl
  · exact Nat.isDigit_of_mem_toDigits (by decide) (by decide) hdigit

theorem le_length_paddedDigits (width n : ℕ) : width ≤ (paddedDigits width n).length := by
  simp only [paddedDigits, List.length_append, List.length_replicate]
  omega

theorem digitsValue_paddedDigits (width n : ℕ) : Text.digitsValue (paddedDigits width n) = n := by
  simp [Text.digitsValue, paddedDigits, Nat.ofDigitChars_append, Nat.ofDigitChars_ten_toDigits]

end Decimal

/-! ## The numeral of a number -/

namespace Number

/-- Every literal that can be written and read back. -/
def Finite : Number → Prop
  | integer _ => True
  | decimal x => Binary64.isFinite x = true

def minusIf (negative : Bool) : Option Sign :=
  if negative then some .minus else none

/-- The digits of a decimal with some places behind the point. -/
def fractional (negative : Bool) (d : Decimal) : Numeral :=
  let places := (-d.exponent).toNat
  let ds := Decimal.paddedDigits (places + 1) d.digits
  ⟨minusIf negative, ds.take (ds.length - places), some (ds.drop (ds.length - places))⟩

/-- The numeral that the text of a number spells. -/
def numeral : Number → Numeral
  | integer n => ⟨minusIf (n.toInt < 0), Nat.toDigits 10 n.toInt.natAbs, none⟩
  | decimal x =>
    match Binary64.whole? x with
    | some n => ⟨minusIf (Binary64.isNegative x), Nat.toDigits 10 n.natAbs, some ['0']⟩
    | none => fractional (Binary64.isNegative x) (Decimal.shortest x)

theorem isNegative_minusIf {negative : Bool} {whole : List Char} {fraction : Option (List Char)} :
    Numeral.isNegative ⟨minusIf negative, whole, fraction⟩ = negative := by
  cases negative <;> rfl

theorem toDigits_isDigit (n : ℕ) : ∀ c ∈ Nat.toDigits 10 n, c.isDigit = true :=
  fun _ hc => Nat.isDigit_of_mem_toDigits (by decide) (by decide) hc

theorem wellFormed_fractional (negative : Bool) (d : Decimal) : (fractional negative d).WellFormed where
  whole := fun _ hc => Decimal.isDigit_of_mem_paddedDigits (List.mem_of_mem_take hc)
  fraction := by
    rintro _ ⟨⟩ c hc
    exact Decimal.isDigit_of_mem_paddedDigits (List.mem_of_mem_drop hc)
  digits := by
    left
    have hlen := Decimal.le_length_paddedDigits ((-d.exponent).toNat + 1) d.digits
    rw [fractional, ← List.length_pos_iff]
    simp only [List.length_take]
    omega

theorem wellFormed_numeral (n : Number) : n.numeral.WellFormed := by
  cases n with
  | integer n => exact ⟨toDigits_isDigit _, by simp [numeral], Or.inl Nat.toDigits_ne_nil⟩
  | decimal x =>
      rw [numeral]
      split
      · refine ⟨toDigits_isDigit _, ?_, Or.inl Nat.toDigits_ne_nil⟩
        rintro _ ⟨⟩ c hc
        rw [List.mem_singleton.mp hc]
        rfl
      · exact wellFormed_fractional _ _

/-! ## The text spells the numeral -/

theorem toList_signed (x : Float) (text : String) :
    (Binary64.signed x text).toList =
      ((minusIf (Binary64.isNegative x)).map Sign.char).toList ++ text.toList := by
  rw [Binary64.signed, minusIf]
  split <;> simp [Sign.char]

theorem positional_eq_unsigned (negative : Bool) {d : Decimal} (h : d.exponent < 0) :
    d.positional = (fractional negative d).unsigned := by
  rw [Decimal.positional, if_neg (by omega)]
  rfl

theorem toList_text {n : Number} (h : n.Finite) : n.text.toList = n.numeral.spelling := by
  cases n with
  | integer n =>
      rw [text, numeral]
      cases n.toInt with
      | ofNat k => simp [Int.repr, Numeral.spelling, minusIf]
      | negSucc k => simp [Int.repr, Numeral.spelling, minusIf, Sign.char]
  | decimal x =>
      have hnan : Binary64.isNaN x = false := by
        simp only [Finite, Binary64.isFinite, Binary64.isNaN, decide_eq_true_eq,
          decide_eq_false_iff_not] at h ⊢
        omega
      rw [Numeral.spelling_eq, text, numeral]
      cases hwhole : Binary64.whole? x with
      | some n =>
          simp only [toList_signed]
          simp [Numeral.unsigned]
      | none =>
          have hexp := Decimal.exponent_shortest_neg h hwhole
          simp only [Finite] at h
          simp only [Binary64.text, hnan, h, Bool.false_eq_true, ↓reduceIte, toList_signed,
            String.toList_ofList, positional_eq_unsigned (Binary64.isNegative x) hexp]
          rfl

/-! ## The numeral is the number -/

theorem toFloat_of_magnitude {x : Float} {d : Decimal} (hx : Binary64.isFinite x = true)
    (h : d.magnitude = Binary64.magnitude x) : d.toFloat (Binary64.isNegative x) = x := by
  have hlt : Binary64.magnitude x < Binary64.infinity := by simpa [Binary64.isFinite] using hx
  rw [Decimal.toFloat, h, Binary64.ofMagnitude_magnitude hlt.le]

theorem integer_numeral (n : Int64) : (integer n).numeral.integer = n.toInt := by
  rw [numeral, Numeral.integer, isNegative_minusIf]
  simp only [Text.digitsValue, Nat.ofDigitChars_ten_toDigits]
  by_cases h : n.toInt < 0
  · simp only [h, decide_true, ↓reduceIte]
    omega
  · simp only [h, decide_false, Bool.false_eq_true, ↓reduceIte]
    omega

theorem decimal_toDigits_zero (sign : Option Sign) (k : ℕ) :
    Numeral.decimal ⟨sign, Nat.toDigits 10 k, some ['0']⟩ = ⟨10 * k, -1⟩ := by
  simp [Numeral.decimal, Text.digitsValue, Nat.ofDigitChars_append, Nat.ofDigitChars_ten_toDigits,
    Nat.ofDigitChars_cons]

theorem decimal_fractional {negative : Bool} {d : Decimal} (h : d.exponent < 0) :
    (fractional negative d).decimal = d := by
  obtain ⟨digits, exponent⟩ := d
  have hlen := Decimal.le_length_paddedDigits ((-exponent).toNat + 1) digits
  simp only at h
  simp only [fractional, Numeral.decimal, Option.getD_some, List.take_append_drop,
    Decimal.digitsValue_paddedDigits, List.length_drop, Decimal.mk.injEq, true_and]
  omega

theorem float_numeral {x : Float} (hx : Binary64.isFinite x = true) :
    (decimal x).numeral.float = x := by
  rw [numeral]
  cases hwhole : Binary64.whole? x with
  | some n =>
      obtain ⟨_, habs, _⟩ := Binary64.absolute_of_whole? hwhole
      simp only [Numeral.float, isNegative_minusIf, decimal_toDigits_zero]
      apply toFloat_of_magnitude hx
      apply Binary64.nearestMagnitude_of_absolute hx (by simp)
      rw [habs]
      change ((10 * n.natAbs * 1 : ℕ) : ℚ) / ((10 : ℕ) : ℚ) = n.natAbs
      generalize n.natAbs = k
      push_cast
      rw [mul_one, mul_div_cancel_left₀ _ (by norm_num)]
  | none =>
      have hexp := Decimal.exponent_shortest_neg hx hwhole
      simp only [Numeral.float, decimal_fractional hexp]
      rw [fractional, isNegative_minusIf]
      exact toFloat_of_magnitude hx (Decimal.magnitude_shortest hx)

theorem isNone_fraction_numeral (x : Float) : (decimal x).numeral.fraction.isNone = false := by
  rw [numeral]
  split <;> rfl

theorem number_numeral {n : Number} (h : n.Finite) : n.numeral.number = n := by
  cases n with
  | integer n =>
      rw [Numeral.number, integer_numeral, if_pos, Int64.ofInt_toInt]
      rw [decide_eq_true n.minValue_le_toInt, decide_eq_true n.toInt_le]
      rfl
  | decimal x =>
      rw [Numeral.number, isNone_fraction_numeral, float_numeral h]
      rfl

/-! ## Different numbers have different texts -/

theorem text_of_not_finite {x : Float} (h : ¬ (decimal x).Finite) :
    (decimal x).text = if Binary64.isNaN x then "NaN" else Binary64.signed x "inf" := by
  have hfin : Binary64.isFinite x = false := by simpa [Finite] using h
  have hwhole : Binary64.whole? x = none := by
    rw [Binary64.whole?, hfin]
    rfl
  rw [text, hwhole, Binary64.text, hfin, if_neg Bool.false_ne_true]

/-- Only a finite number is written in digits. -/
theorem finite_iff (n : Number) :
    n.Finite ↔ ∀ c ∈ n.text.toList, c.isDigit = true ∨ c = '+' ∨ c = '-' ∨ c = '.' := by
  constructor
  · intro h
    rw [toList_text h]
    exact Numeral.mem_spelling (wellFormed_numeral n)
  · intro h
    by_contra hfin
    cases n with
    | integer n => exact hfin trivial
    | decimal x =>
        rw [text_of_not_finite hfin, Binary64.signed] at h
        split at h
        · exact absurd (h 'N' (by decide)) (by decide)
        · split at h <;> exact absurd (h 'f' (by decide)) (by decide)

theorem eq_of_text_of_finite {m n : Number} (hm : m.Finite) (hn : n.Finite) (h : m.text = n.text) :
    m = n := by
  have hscan {k : Number} (hk : k.Finite) : (Numeral.scan k.text.toList).number = k := by
    rw [toList_text hk, ← List.append_nil k.numeral.spelling,
      Numeral.scan_spelling (wellFormed_numeral k) ⟨by simp, by simp⟩, number_numeral hk]
  rw [← hscan hm, ← hscan hn, h]

theorem eq_of_text_of_not_finite {x y : Float} (hx : ¬ (decimal x).Finite) (hy : ¬ (decimal y).Finite)
    (h : (decimal x).text = (decimal y).text) : x = y := by
  have hinf {z : Float} (hz : ¬ (decimal z).Finite) (hnan : Binary64.isNaN z = false) :
      z = Binary64.ofMagnitude (Binary64.isNegative z) Binary64.infinity := by
    have hmag : Binary64.magnitude z = Binary64.infinity := by
      simp only [Finite, Binary64.isFinite, Binary64.isNaN, decide_eq_true_eq,
        decide_eq_false_iff_not] at hz hnan
      omega
    rw [← hmag, Binary64.ofMagnitude_magnitude hmag.le]
  rw [text_of_not_finite hx, text_of_not_finite hy] at h
  cases hxn : Binary64.isNaN x <;> cases hyn : Binary64.isNaN y <;>
    simp only [hxn, hyn, Bool.false_eq_true, ↓reduceIte, Binary64.signed] at h
  · rw [hinf hx hxn, hinf hy hyn]
    congr 1
    cases hsx : Binary64.isNegative x <;> cases hsy : Binary64.isNegative y <;> simp [hsx, hsy] at h ⊢
  · exact absurd h (by split <;> decide)
  · exact absurd h (by split <;> decide)
  · exact Binary64.eq_of_isNaN hxn hyn

theorem text_injective : Function.Injective text := by
  intro m n h
  have hfin : m.Finite ↔ n.Finite := by rw [finite_iff, finite_iff, h]
  by_cases hm : m.Finite
  · exact eq_of_text_of_finite hm (hfin.mp hm) h
  · have hn : ¬ n.Finite := fun hn => hm (hfin.mpr hn)
    cases m with
    | integer m => exact absurd trivial hm
    | decimal x =>
        cases n with
        | integer n => exact absurd trivial hn
        | decimal y => rw [eq_of_text_of_not_finite hm hn h]

/-! ## Line numbers -/

/-- A stored line number is written as the grammar asks of a line number. -/
theorem classify_numeral {n : Number} (hline : Line.isLineNumber n.value = true)
    (hnorm : normalized n.value = n) : n.Finite ∧ n.numeral.classify ≠ .real := by
  cases n with
  | integer k =>
      refine ⟨trivial, ?_⟩
      rcases normalized_cases (integer k).value with ⟨m, hwhole, hm, hint⟩ | hdec
      · have hnonneg := Line.whole?_nonneg hline hwhole
        rw [hint] at hnorm
        cases hnorm
        have hk : ¬ m < 0 := by omega
        rw [numeral, Numeral.classify, isNegative_minusIf, Int64.toInt_ofInt_of_le (by omega) (by omega)]
        simp [hk]
      · rw [hnorm] at hdec
        cases hdec
  | decimal x =>
      simp only [Line.isLineNumber, value, Bool.and_eq_true] at hline
      obtain ⟨hx, hsign⟩ := hline
      refine ⟨hx, ?_⟩
      have hzero : Binary64.isZero x = false := by
        cases hz : Binary64.isZero x with
        | false => rfl
        | true =>
            -- a zero would be stored as an integer
            have habs : Binary64.absolute x = (0 : ℕ) := by
              rw [Binary64.absolute_of_isZero hz, Nat.cast_zero]
            have hwhole := Binary64.whole?_of_absolute hx habs
            rw [value, normalized, hwhole] at hnorm
            simp [Binary64.hiddenBit] at hnorm
      rw [Numeral.classify, isNone_fraction_numeral, float_numeral hx, hzero]
      simpa [hzero] using hsign

end Number

end GCode
