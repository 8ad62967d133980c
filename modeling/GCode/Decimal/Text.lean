import GCode.Decimal.Basic

/-!
# Decimal notation

Numbers are written without an exponent, however large or small they are.
-/

namespace GCode

namespace Decimal

/-- The digits of `n`, with zeros in front up to the given width. -/
def paddedDigits (width n : Nat) : List Char :=
  let ds := Nat.toDigits 10 n
  List.replicate (width - ds.length) '0' ++ ds

/-- Digits, with a point if the decimal has digits behind it. -/
def positional (d : Decimal) : List Char :=
  if 0 ≤ d.exponent then
    Nat.toDigits 10 (d.digits * Nat.pow 10 d.exponent.toNat)
  else
    let places := (-d.exponent).toNat
    let ds := paddedDigits (places + 1) d.digits
    ds.take (ds.length - places) ++ '.' :: ds.drop (ds.length - places)

end Decimal

namespace Binary64

def signed (x : Float) (text : String) : String :=
  if isNegative x then "-" ++ text else text

/-- The shortest decimal that reads back as `x`. -/
def text (x : Float) : String :=
  if isNaN x then
    "NaN"
  else if isFinite x then
    signed x (String.ofList (Decimal.shortest x).positional)
  else
    signed x "inf"

end Binary64

end GCode
