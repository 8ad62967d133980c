import GCode.Flavor.Error
import GCode.Numeral
import GCode.Text.Blank
import GCode.Text.DecimalDigit

/-!
# Codes

A code is a letter, alone or with an unsigned number. Every code has one canonical spelling: the letter
in upper case and the number as it is written for its value.
-/

namespace GCode.Code

/-- The number at the front of a text, digits with or without a fraction, and what follows it. -/
def scanNumber (isDigit : Char → Bool) (cs : List Char) : Option (List Char × List Char) :=
  let whole := cs.takeWhile isDigit
  if whole.isEmpty then
    none
  else
    match cs.drop whole.length with
    | '.' :: rest =>
      let fraction := rest.takeWhile isDigit
      if fraction.isEmpty then
        some (whole, '.' :: rest)
      else
        some (whole ++ '.' :: fraction, rest.drop fraction.length)
    | rest => some (whole, rest)

/-- A text that is a number from its start to its end. -/
def isNumber (cs : List Char) : Bool :=
  match scanNumber Char.isDigit cs with
  | some (_, []) => true
  | _ => false

/-- The canonical spelling of the code with this letter and the number written so. -/
def canonical (letter : Char) (number : List Char) : String :=
  letter.toUpper.toString ++ (Number.normalized (Numeral.scanUnsigned none number).float).text

/-- The canonical spelling of a code. -/
def normalize (text : String) : Except LoadError String :=
  match Text.trim text.toList with
  | [] => .error (.invalidCode text)
  | letter :: number =>
    if !letter.isAlpha then
      .error (.invalidCode text)
    else if number.isEmpty then
      .ok letter.toUpper.toString
    else if isNumber number then
      .ok (canonical letter number)
    else
      .error (.invalidCode text)

/-! ## Order -/

/-- What codes are ordered by: the letter, then the digits before the point in a column of five, then
the point and the digits behind it. -/
def sortKey (code : String) : List Char :=
  match code.toList with
  | [] => []
  | letter :: number =>
    let whole := number.takeWhile (· ≠ '.')
    letter :: (List.replicate (5 - whole.length) '0' ++ number)

def le (a b : String) : Bool :=
  !decide (sortKey b < sortKey a)

end GCode.Code

namespace GCode

/-! ## Ranges -/

/-- A written range of codes, such as `G1-G3` or `G1 - 3`. -/
structure CodeRange where
  letter : Char
  start : List Char
  stopLetter : Option Char
  stop : List Char
  deriving DecidableEq, Repr

namespace CodeRange

/-- The second half of a range, behind the dash. -/
def readStop (letter : Char) (start cs : List Char) : Option CodeRange :=
  let (stopLetter, cs) :=
    match cs with
    | c :: rest => if c.isAlpha then (some c, rest) else (none, cs)
    | [] => (none, [])
  match Code.scanNumber Text.isDecimalDigit cs with
  | some (stop, []) => some ⟨letter, start, stopLetter, stop⟩
  | _ => none

/-- The range that a text is, if it has the form of one; its digits can be of any script. -/
def read? : List Char → Option CodeRange
  | [] => none
  | letter :: cs =>
    if letter.isAlpha then
      match Code.scanNumber Text.isDecimalDigit cs with
      | none => none
      | some (start, rest) =>
        match rest.dropWhile Text.isBlank with
        | '-' :: rest => readStop letter start (rest.dropWhile Text.isBlank)
        | _ => none
    else
      none

/-- Whether both ends have the same letter. -/
def isUniform (range : CodeRange) : Bool :=
  match range.stopLetter with
  | none => true
  | some c => c.toUpper = range.letter.toUpper

def startText (range : CodeRange) : String :=
  String.ofList (range.letter :: range.start)

def stopText (range : CodeRange) : String :=
  String.ofList (range.letter :: range.stop)

end CodeRange

end GCode
