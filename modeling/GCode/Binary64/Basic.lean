/-!
# Binary64 numbers

A finite number is `± mantissa · 2 ^ exponent`. Reading a fraction gives the nearest number, and of
two equally near ones the one with an even mantissa.
-/

namespace GCode.Binary64

/-! ## Taking a number apart -/

/-- The weight of the bit that tells the sign. -/
def signBit : Nat := 0x8000000000000000

/-- The weight of the mantissa's leading bit, which is not stored, and of the exponent's last bit. -/
def hiddenBit : Nat := 0x10000000000000

/-- The magnitude of infinity; the finite magnitudes are exactly those below it. -/
def infinity : Nat := 0x7ff0000000000000

/-- The bits below the sign bit. They grow with the absolute value. -/
def magnitude (x : Float) : Nat :=
  x.toBits.toNat % signBit

def isNegative (x : Float) : Bool :=
  signBit ≤ x.toBits.toNat

def isFinite (x : Float) : Bool :=
  magnitude x < infinity

def isNaN (x : Float) : Bool :=
  infinity < magnitude x

def isZero (x : Float) : Bool :=
  magnitude x = 0

/-- The mantissa, below `2 ^ 53`; a subnormal number has no hidden bit. -/
def mantissa (x : Float) : Nat :=
  if magnitude x < hiddenBit then magnitude x else hiddenBit + magnitude x % hiddenBit

/-- The exponent of the mantissa's last bit, at least `-1074`. -/
def exponent (x : Float) : Int :=
  max (magnitude x / hiddenBit : Nat) 1 - 1075

/-- A positive exponent scales the numerator of `mantissa · 2 ^ exponent`. -/
def numerator (x : Float) : Nat :=
  mantissa x <<< (exponent x).toNat

/-- A negative exponent scales the denominator of `mantissa · 2 ^ exponent`. -/
def denominator (x : Float) : Nat :=
  1 <<< (-exponent x).toNat

/-- The integer that `x` is, if it is one. -/
def whole? (x : Float) : Option Int :=
  if isFinite x && numerator x % denominator x = 0 then
    let n : Int := (numerator x / denominator x : Nat)
    some (if isNegative x then -n else n)
  else
    none

/-! ## Putting a number together -/

/-- The whole number nearest to `num / den`; a tie goes to the even neighbour. -/
def roundDiv (num den : Nat) : Nat :=
  let q := num / den
  let r := num % den
  if 2 * r < den then q else if den < 2 * r then q + 1 else q + q % 2

/-- The exponent of the largest power of two that is not above `num / den`. -/
def floorLog2 (num den : Nat) : Int :=
  let l : Int := num.log2 - den.log2
  if den <<< l.toNat ≤ num <<< (-l).toNat then l else l - 1

/-- The magnitude nearest to `num / den`. A mantissa that rounds up to `2 ^ 53` carries into the
exponent by itself. -/
def nearestMagnitude (num den : Nat) : Nat :=
  if num = 0 then
    0
  else
    let q := max (floorLog2 num den - 52) (-1074)
    let m := roundDiv (num <<< (-q).toNat) (den <<< q.toNat)
    min ((q + 1074).toNat * hiddenBit + m) infinity

def ofMagnitude (negative : Bool) (bits : Nat) : Float :=
  Float.ofBits (UInt64.ofNat (if negative then signBit + bits else bits))

/-- The number nearest to `num / den`, or to its opposite. -/
def nearest (negative : Bool) (num den : Nat) : Float :=
  ofMagnitude negative (nearestMagnitude num den)

/-- The number nearest to an integer. -/
def ofInt (n : Int) : Float :=
  nearest (n < 0) n.natAbs 1

end GCode.Binary64
