/-!
# Decimal digits
-/

namespace GCode.Text

/-- The longest run of digits at the front. -/
def digits (cs : List Char) : List Char :=
  cs.takeWhile Char.isDigit

/-- The number that a run of digits stands for. -/
def digitsValue (cs : List Char) : Nat :=
  Nat.ofDigitChars 10 cs 0

end GCode.Text
