import GCode.Proofs.Binary64.Whole
import GCode.Proofs.Evaluation.References
import GCode.Proofs.Grammar.Steps

/-!
# Computed indices

A computed index reads the register that its value would name as a literal: both ask for a whole number
that fits into 32 bits.
-/

namespace GCode

open Binary64

theorem Number.whole?_normalized (x : Float) : (normalized x).whole? = Binary64.whole? x := by
  rcases normalized_cases x with ⟨n, hwhole, hn, hnorm⟩ | hnorm
  · rw [hnorm, whole?, hwhole, Int64.toInt_ofInt_of_le (by omega) (by omega)]
  · rw [hnorm, whole?]

theorem Number.index?_normalized (x : Float) : (normalized x).index? = (decimal x).index? := by
  rw [index?, index?, whole?_normalized, whole?]

theorem Number.index?_decimal_eq_some_iff {x : Float} {n : UInt32} :
    (decimal x).index? = some n ↔ HasValue x n.toNat := by
  rw [index?_eq_some_iff, whole?, whole?_eq_some_iff, Int.cast_natCast]

theorem Number.index?_decimal_eq_none_iff {x : Float} :
    (decimal x).index? = none ↔ ¬∃ n : UInt32, HasValue x n.toNat := by
  simp only [Option.eq_none_iff_forall_ne_some, ne_eq, index?_decimal_eq_some_iff, not_exists]

variable {p : Parameters} {v : RealValue} {y : Float}

theorem ParameterIndex.lookup_expression (h : v.evaluateWith p = .ok y) :
    (expression v).lookup p =
      Parameters.found ((Number.decimal y).index?.bind p.numbered) (Binary64.text y) := by
  rw [RealValue.evaluateWith] at h
  rw [lookup, h, ← Number.index?_normalized]
  rfl

/-- An index that comes to `y` reads register `n` if `y` is the whole number `n`, and so does the literal `y`.
Otherwise the one reads no register and the other is no index. -/
theorem ParameterIndex.computed_agrees (h : v.evaluateWith p = .ok y) :
    (∀ n : UInt32, HasValue y n.toNat →
        ofValue (.literal (.decimal y)) = .ok (.number n) ∧
          (∀ x, p.numbered n = some x → (RealValue.parameter (.expression v)).evaluateWith p = .ok x) ∧
          (p.numbered n = none →
            (RealValue.parameter (.expression v)).evaluateWith p =
              .error (.unknownParameter (Binary64.text y)))) ∧
      ((¬∃ n : UInt32, HasValue y n.toNat) →
        ofValue (.literal (.decimal y)) = .error (.invalidParameterIndex y) ∧
          (RealValue.parameter (.expression v)).evaluateWith p =
            .error (.unknownParameter (Binary64.text y))) ∧
      (isZero y = true → HasValue y 0) ∧ (isFinite y = false → ∀ r, ¬HasValue y r) := by
  have hread : (RealValue.parameter (.expression v)).evaluateWith p =
      Parameters.found ((Number.decimal y).index?.bind p.numbered) (Binary64.text y) := by
    rw [RealValue.evaluateWith, RealValue.eval]
    exact lookup_expression h
  refine ⟨fun n hn => ?_, fun hno => ?_, fun hzero => ?_, fun hinfinite r hr => ?_⟩
  · rw [hread, ofValue, Number.index?_decimal_eq_some_iff.mpr hn, Option.bind_some]
    exact ⟨rfl, fun x hx => by rw [hx]; rfl, fun hmissing => by rw [hmissing]; rfl⟩
  · rw [hread, ofValue, Number.index?_decimal_eq_none_iff.mpr hno]
    exact ⟨rfl, rfl⟩
  · rw [← Int.cast_zero]
    exact whole?_eq_some_iff.mp (whole?_of_isZero hzero)
  · exact Bool.false_ne_true (hinfinite.symm.trans hr.finite)

/-- The first and the last register have a value. -/
def Parameters.ends : Parameters where
  numbered := fun n => if n = 0 then some 9.0 else if n = 4294967295 then some 7.0 else none

/-- `[n + 1]` -/
def RealValue.next (n : Int64) : RealValue :=
  binary .add (literal (.integer n)) (literal (.integer 1))

/-- `#[4294967294 + 1]` reads the last register, `#[4294967295 + 1]` reads none, and `#[-0.0]` reads the first. -/
theorem ParameterIndex.computed_agrees_ends :
    (HasValue 4294967295.0 (4294967295 : UInt32).toNat ∧
        (RealValue.parameter (.expression (.next 4294967294))).evaluateWith .ends = .ok 7.0) ∧
      ((¬∃ n : UInt32, HasValue 4294967296.0 n.toNat) ∧
        (RealValue.parameter (.expression (.next 4294967295))).evaluateWith .ends =
          .error (.unknownParameter "4294967296")) ∧
      (HasValue (-0.0) (0 : UInt32).toNat ∧
        (RealValue.parameter (.expression (.literal (.decimal (-0.0))))).evaluateWith .ends = .ok 9.0) := by
  have hlast : HasValue 4294967295.0 (4294967295 : UInt32).toNat :=
    Number.index?_decimal_eq_some_iff.mp (by decide +kernel)
  have hnext : ¬∃ n : UInt32, HasValue 4294967296.0 n.toNat :=
    Number.index?_decimal_eq_none_iff.mp (by decide +kernel)
  have hfirst : HasValue (-0.0) (0 : UInt32).toNat :=
    Number.index?_decimal_eq_some_iff.mp (by decide +kernel)
  have hlastValue : (RealValue.next 4294967294).evaluateWith .ends = .ok 4294967295.0 := by decide +kernel
  have hnextValue : (RealValue.next 4294967295).evaluateWith .ends = .ok 4294967296.0 := by decide +kernel
  have hnextText : Binary64.text 4294967296.0 = "4294967296" := by decide +kernel
  have hfirstValue : (RealValue.literal (.decimal (-0.0))).evaluateWith .ends = .ok (-0.0) := rfl
  refine ⟨⟨hlast, ?_⟩, ⟨hnext, ?_⟩, ⟨hfirst, ?_⟩⟩
  · exact ((computed_agrees hlastValue).1 _ hlast).2.1 7.0 (by decide +kernel)
  · rw [← hnextText]
    exact ((computed_agrees hnextValue).2.1 hnext).2
  · exact ((computed_agrees hfirstValue).1 _ hfirst).2.1 9.0 (by decide +kernel)

end GCode
