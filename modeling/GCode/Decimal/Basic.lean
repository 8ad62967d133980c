import GCode.Binary64.Basic

/-!
# Decimals

A decimal is `digits · 10 ^ exponent`. `shortest` picks the decimal with the fewest digits that reads
back as the same binary64, and of those the nearest.
-/

namespace GCode

/-- The non-negative decimal `digits · 10 ^ exponent`. -/
structure Decimal where
  digits : Nat
  exponent : Int
  deriving DecidableEq, Repr, Inhabited

namespace Decimal

/-- The magnitude of the binary64 nearest to the decimal. -/
def magnitude (d : Decimal) : Nat :=
  Binary64.nearestMagnitude (d.digits * Nat.pow 10 d.exponent.toNat) (Nat.pow 10 (-d.exponent).toNat)

def toFloat (negative : Bool) (d : Decimal) : Float :=
  Binary64.ofMagnitude negative d.magnitude

/-- The two multiples of `10 ^ k` around `|x|`, the nearer one first; in the middle the larger one. -/
def neighbours (x : Float) (k : Int) : List Decimal :=
  let num := Binary64.numerator x * Nat.pow 10 (-k).toNat
  let den := Binary64.denominator x * Nat.pow 10 k.toNat
  let q := num / den
  if 2 * (num % den) < den then [⟨q, k⟩, ⟨q + 1, k⟩] else [⟨q + 1, k⟩, ⟨q, k⟩]

/-- The grids to look for a short decimal on, coarsest first: from one that is coarser than `x`
down to one on which `x` has 17 digits. -/
def grids (x : Float) : List Int :=
  let bits : Int := (Binary64.mantissa x).log2 + 1 + Binary64.exponent x
  let top := bits * 30103 / 100000 + 1
  (List.range 21).map fun (i : Nat) => top - i

/-- All digits of `|x|`. -/
def exact (x : Float) : Decimal :=
  let e := (-Binary64.exponent x).toNat
  ⟨Binary64.numerator x * Nat.pow 5 e, -e⟩

/-- The shortest decimal that reads back as the finite number `|x|`. -/
def shortest (x : Float) : Decimal :=
  if Binary64.isZero x then
    ⟨0, 0⟩
  else
    ((grids x).findSome? fun k =>
      (neighbours x k).find? fun d => d.magnitude = Binary64.magnitude x).getD (exact x)

end Decimal

end GCode
