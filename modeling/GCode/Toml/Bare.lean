import GCode.Numeral
import GCode.Toml.Value

/-!
# Bare values of TOML

Numbers, truth values, dates and times. A bare value is cut out of the document before it is read.
-/

namespace GCode.Toml

/-- Digits with single underscores between them, without the underscores. -/
def grouped? (isDigit : Char → Bool) : List Char → Option (List Char)
  | [] => none
  | [c] => if isDigit c then some [c] else none
  | c :: '_' :: cs => if isDigit c then (grouped? isDigit cs).map (c :: ·) else none
  | c :: cs => if isDigit c then (grouped? isDigit cs).map (c :: ·) else none

/-- Digits of which the first is no zero, unless it is the only one. -/
def wholePart? (cs : List Char) : Option (List Char) :=
  match grouped? Char.isDigit cs with
  | some ['0'] => some ['0']
  | some ('0' :: _) => none
  | digits => digits

def splitSign : List Char → Option Sign × List Char
  | '+' :: cs => (some .plus, cs)
  | '-' :: cs => (some .minus, cs)
  | cs => (none, cs)

def baseDigit? (base : Nat) (c : Char) : Option Nat :=
  let n := if c.isDigit then c.toNat - 48 else c.toLower.toNat - 87
  if c.isAlphanum && n < base then some n else none

def inBase (base : Nat) (cs : List Char) : Option Int :=
  (grouped? (fun c => (baseDigit? base c).isSome) cs).map fun digits =>
    (digits.foldl (fun n c => base * n + (baseDigit? base c).getD 0) 0 : Nat)

def integer? (cs : List Char) : Option Int :=
  match cs with
  | '0' :: 'x' :: cs => inBase 16 cs
  | '0' :: 'o' :: cs => inBase 8 cs
  | '0' :: 'b' :: cs => inBase 2 cs
  | _ =>
    let (sign, cs) := splitSign cs
    (wholePart? cs).map fun digits => Numeral.integer ⟨sign, digits, none⟩

/-- An exponent beyond this size leaves only zero or infinity. -/
def largestExponent (digits : List Char) : Int :=
  digits.length + 400

def exponent? : List Char → Option Int
  | [] => some 0
  | _ :: cs =>
    let (sign, cs) := splitSign cs
    (grouped? Char.isDigit cs).map fun digits => Numeral.integer ⟨sign, digits, none⟩

def isExponentMark (c : Char) : Bool :=
  c = 'e' || c = 'E'

/-- The number `± whole.fraction · 10 ^ exponent`. -/
def decimalFloat? (cs : List Char) : Option Float := do
  let (sign, cs) := splitSign cs
  let mantissa := cs.takeWhile fun c => !isExponentMark c
  let exponent ← exponent? (cs.drop mantissa.length)
  let whole ← wholePart? (mantissa.takeWhile (· ≠ '.'))
  let fraction ← match mantissa.dropWhile (· ≠ '.') with
    | [] => some []
    | _ :: digits => grouped? Char.isDigit digits
  let bound := largestExponent (whole ++ fraction)
  let decimal := (Numeral.mk none whole (some fraction)).decimal
  let exponent := decimal.exponent + max (-bound) (min bound exponent)
  return Decimal.toFloat (sign = some .minus) ⟨decimal.digits, exponent⟩

/-- Infinity has a name of its own; a number that is rounded to it is out of range. -/
def float? (cs : List Char) : Option Value :=
  let (sign, rest) := splitSign cs
  if rest = ['i', 'n', 'f'] then
    some (.float (Binary64.ofMagnitude (sign = some .minus) Binary64.infinity))
  else if rest = ['n', 'a', 'n'] then
    some (.float (0.0 / 0.0))
  else
    (decimalFloat? cs).map fun x => if Binary64.isFinite x then .float x else .outOfRange

/-! ## Dates and times -/

/-- The number in front that has exactly the given count of digits. -/
def fixedNumber (count : Nat) (cs : List Char) : Option (Nat × List Char) :=
  if (cs.take count).length = count && (cs.take count).all Char.isDigit then
    some (Text.digitsValue (cs.take count), cs.drop count)
  else
    none

def skip (c : Char) : List Char → Option (List Char)
  | d :: cs => if c = d then some cs else none
  | [] => none

def daysIn (year month : Nat) : Nat :=
  if month = 2 then
    if year % 4 = 0 && (year % 100 ≠ 0 || year % 400 = 0) then 29 else 28
  else if [4, 6, 9, 11].contains month then 30
  else 31

/-- The text behind a date. -/
def date? (cs : List Char) : Option (List Char) := do
  let (year, cs) ← fixedNumber 4 cs
  let (month, cs) ← fixedNumber 2 (← skip '-' cs)
  let (day, cs) ← fixedNumber 2 (← skip '-' cs)
  if 1 ≤ month && month ≤ 12 && 1 ≤ day && day ≤ daysIn year month then some cs else none

/-- The text behind the seconds of a time, which may be missing. -/
def seconds? (cs : List Char) : Option (List Char) :=
  match cs with
  | ':' :: cs => do
    let (second, cs) ← fixedNumber 2 cs
    if 60 < second then
      none
    match cs with
    | '.' :: cs =>
      let digits := Text.digits cs
      if digits.isEmpty then none else some (cs.drop digits.length)
    | _ => some cs
  | _ => some cs

def clock? (cs : List Char) : Option (List Char) := do
  let (hour, cs) ← fixedNumber 2 cs
  let (minute, cs) ← fixedNumber 2 (← skip ':' cs)
  if hour < 24 && minute < 60 then some cs else none

def time? (cs : List Char) : Option (List Char) := do
  seconds? (← clock? cs)

def isOffset : List Char → Bool
  | [] | ['Z'] | ['z'] => true
  | '+' :: cs | '-' :: cs => clock? cs = some []
  | _ => false

def isMoment (cs : List Char) : Bool :=
  match date? cs with
  | some [] => true
  | some (c :: cs) => (c = 'T' || c = 't' || c = ' ') && (time? cs).any isOffset
  | none => time? cs = some []

/-! ## Bare values -/

def isBareChar (c : Char) : Bool :=
  c.isAlphanum || c = '_' || c = '-' || c = '+' || c = '.' || c = ':'

/-- The bare value at the front. One space can stand between a date and a time. -/
def cutBare (cs : List Char) : List Char :=
  let first := cs.takeWhile isBareChar
  match cs.drop first.length with
  | ' ' :: d :: rest =>
    if date? first = some [] && d.isDigit then
      first ++ ' ' :: (d :: rest).takeWhile isBareChar
    else
      first
  | _ => first

/-- An integer has at most 128 bits. -/
def ofInteger (n : Int) : Value :=
  if -(Nat.pow 2 127 : Nat) ≤ n ∧ n < (Nat.pow 2 128 : Nat) then .integer n else .outOfRange

def bare? (cs : List Char) : Option Value :=
  if cs = "true".toList then some (.boolean true)
  else if cs = "false".toList then some (.boolean false)
  else if isMoment cs then some .moment
  else
    match integer? cs with
    | some n => some (ofInteger n)
    | none => float? cs

end GCode.Toml
