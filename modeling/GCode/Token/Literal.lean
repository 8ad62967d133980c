import GCode.Numeral

/-!
# Number literals

The scanner collects the characters of a literal first and reads the collected text then.
-/

namespace GCode.Literal

/-! ## Collecting -/

/-- Digits, and a point if there was none yet. -/
def digits (hasPoint : Bool) : List Char → List Char
  | [] => []
  | c :: cs =>
    if c.isDigit then
      c :: digits hasPoint cs
    else if c = '.' && !hasPoint then
      c :: digits true cs
    else
      []

/-- The characters of the literal at the front of a text. -/
def cut : List Char → List Char
  | [] => []
  | c :: cs => if (Sign.ofChar? c).isSome then c :: digits false cs else digits false (c :: cs)

/-! ## Reading -/

/-- The numeral that a whole text spells, with a digit at least. -/
def numeral? (text : List Char) : Option Numeral :=
  let n := Numeral.scan text
  if n.spelling = text && !(n.whole ++ n.fraction.getD []).isEmpty then some n else none

/-- A literal has no letters, so exponents and the names of infinity and NaN are left out. -/
def float? (text : List Char) : Option Float :=
  (numeral? text).map Numeral.float

/-- An integer of 64 bits, written without a point. -/
def integer? (text : List Char) : Option Int64 :=
  match (numeral? text).map Numeral.number with
  | some (.integer n) => some n
  | _ => none

/-- A text that cannot be read is zero. -/
def float (text : List Char) : Float :=
  (float? text).getD 0.0

def number (text : List Char) : Number :=
  if text.contains '.' then
    .decimal (float text)
  else
    ((integer? text).map Number.integer).getD (.decimal (float text))

def classify (text : List Char) : NumeralClass :=
  if text.contains '.' then
    if Binary64.isNegative (float text) || Binary64.isZero (float text) then .real else .positiveReal
  else
    if text.head? = some '-' then .real else .positiveInteger

end GCode.Literal
