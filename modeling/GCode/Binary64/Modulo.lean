import GCode.Binary64.Basic

/-!
# Remainders

A remainder has the sign of the dividend and is exact. The floored remainder has the sign of the divisor, as
for whole numbers.
-/

namespace GCode.Binary64

/-- The mantissa of the finite `x` for an exponent that is not above its own. -/
def mantissaAt (x : Float) (e : Int) : Nat :=
  mantissa x <<< (exponent x - e).toNat

/-- A remainder of zero keeps the sign of the dividend, too. -/
def finiteRemainder (x y : Float) : Float :=
  let e := min (exponent x) (exponent y)
  nearest (isNegative x) ((mantissaAt x e % mantissaAt y e) <<< e.toNat) (1 <<< (-e).toNat)

/-- What is left of `x` when `y` is taken away as often as it fits. -/
def remainder (x y : Float) : Float :=
  if isNaN x || isNaN y || !isFinite x || isZero y then
    0.0 / 0.0
  else if isFinite y then
    finiteRemainder x y
  else
    x

/-- `x - y · ⌊x / y⌋`. A remainder on the other side of zero than the divisor is moved by one divisor. -/
def modulo (x y : Float) : Float :=
  let r := remainder x y
  if !isZero r && isNegative r != isNegative y then r + y else r

end GCode.Binary64
