import GCode.Number
import GCode.Text.Digit

/-!
# Numerals

A numeral is a spelling of a number: an optional sign, digits, and at most one point.
-/

namespace GCode

inductive Sign where
  | plus
  | minus
  deriving DecidableEq, Repr

namespace Sign

def char : Sign → Char
  | plus => '+'
  | minus => '-'

def ofChar? (c : Char) : Option Sign :=
  if c = '+' then some plus else if c = '-' then some minus else none

end Sign

structure Numeral where
  sign : Option Sign
  whole : List Char
  /-- What stands behind the point, if there is a point. -/
  fraction : Option (List Char)
  deriving DecidableEq, Repr

/-- What the grammar asks of a line number. -/
inductive NumeralClass where
  /-- Without a point and without a minus. -/
  | positiveInteger
  /-- With a point, and above zero. -/
  | positiveReal
  | real
  deriving DecidableEq, Repr

namespace Numeral

/-- A numeral starts with a digit, or with a point and a digit. -/
def startsUnsigned : List Char → Bool
  | c :: d :: _ => c.isDigit || (c = '.' && d.isDigit)
  | [c] => c.isDigit
  | [] => false

/-- A sign belongs to the numeral behind it, except after an operand, where it is an operator. -/
def startsAt (afterOperand : Bool) : List Char → Bool
  | [] => false
  | c :: cs =>
    if (Sign.ofChar? c).isSome then !afterOperand && startsUnsigned cs else startsUnsigned (c :: cs)

/-- The digits and the point at the front. -/
def scanUnsigned (sign : Option Sign) (cs : List Char) : Numeral :=
  let whole := Text.digits cs
  match cs.drop whole.length with
  | '.' :: rest => ⟨sign, whole, some (Text.digits rest)⟩
  | _ => ⟨sign, whole, none⟩

/-- The longest numeral at the front of a text where one starts. -/
def scan : List Char → Numeral
  | [] => ⟨none, [], none⟩
  | c :: cs =>
    match Sign.ofChar? c with
    | some sign => scanUnsigned (some sign) cs
    | none => scanUnsigned none (c :: cs)

def spelling (n : Numeral) : List Char :=
  (n.sign.map Sign.char).toList ++ n.whole ++ (n.fraction.map ('.' :: ·)).getD []

def isNegative (n : Numeral) : Bool :=
  n.sign = some .minus

/-- The exact value without its sign. -/
def decimal (n : Numeral) : Decimal :=
  let places := n.fraction.getD []
  ⟨Text.digitsValue (n.whole ++ places), -places.length⟩

def float (n : Numeral) : Float :=
  n.decimal.toFloat n.isNegative

/-- The exact value of a numeral without a point. -/
def integer (n : Numeral) : Int :=
  let value : Int := Text.digitsValue n.whole
  if n.isNegative then -value else value

/-- A numeral without a point is an integer, if it is one of 64 bits. -/
def number (n : Numeral) : Number :=
  if n.fraction.isNone && Int64.minValue.toInt ≤ n.integer && n.integer ≤ Int64.maxValue.toInt then
    .integer (Int64.ofInt n.integer)
  else
    .decimal n.float

end Numeral

end GCode
