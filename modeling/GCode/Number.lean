import GCode.Decimal.Text

/-!
# Numbers

A number remembers whether it was written with a decimal point. The same value can be both: `1` is an
integer and `1.0` a decimal.
-/

namespace GCode

inductive Number where
  | integer (n : Int64)
  | decimal (x : Float)
  deriving DecidableEq, Inhabited

namespace Number

def value : Number → Float
  | integer n => Binary64.ofInt n.toInt
  | decimal x => x

/-- The integer that the number is, if it is one. -/
def whole? : Number → Option Int
  | integer n => some n.toInt
  | decimal x => Binary64.whole? x

/-- The number of a value: an integer if it is one that binary64 tells apart from its neighbours. -/
def normalized (x : Float) : Number :=
  match Binary64.whole? x with
  | some n => if n.natAbs < 2 * Binary64.hiddenBit then integer (Int64.ofInt n) else decimal x
  | none => decimal x

/-- An integer of 32 bits without a sign can be an index. -/
def indexOf? (n : Int) : Option UInt32 :=
  if 0 ≤ n ∧ n < UInt32.size then some (UInt32.ofNat n.toNat) else none

/-- The index that the number is, if it is one. -/
def index? (number : Number) : Option UInt32 :=
  number.whole?.bind indexOf?

/-- A whole decimal keeps a zero behind its point. -/
def text : Number → String
  | integer n => n.toInt.repr
  | decimal x =>
    match Binary64.whole? x with
    | some n => Binary64.signed x (n.natAbs.repr ++ ".0")
    | none => Binary64.text x

/-- Decimals are compared as numbers: the zeros are equal and NaN is equal to nothing. -/
protected def beq : Number → Number → Bool
  | integer m, integer n => m == n
  | decimal x, decimal y => x == y
  | _, _ => false

instance : BEq Number := ⟨Number.beq⟩

end Number

end GCode
