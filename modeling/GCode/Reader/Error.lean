import GCode.FieldError
import GCode.Token.Basic

/-!
# Errors of the reader
-/

namespace GCode

/-- What the reader could have gone on with. -/
inductive Expected where
  | lineNumber
  | segment
  | wordLetter
  | value
  | equals
  | openBracket
  | slash
  | operatorOrClose
  | endOfLine
  deriving DecidableEq, Repr, Inhabited

def Expected.description : Expected → String
  | lineNumber => "positive line number"
  | segment => "word, comment or parameter setting"
  | wordLetter => "word letter"
  | value => "real value"
  | equals => "'='"
  | openBracket => "'['"
  | slash => "'/'"
  | operatorOrClose => "binary operator or ']'"
  | endOfLine => "end of line"

/-- Why a text is not one line, word or value. -/
inductive ReadError where
  | lexical (e : LexicalError)
  | unexpectedToken (found : PlacedToken) (expected : Expected)
  | unexpectedEnd (position : Nat) (expected : Expected)
  | field (e : FieldError)
  deriving DecidableEq, Inhabited

namespace ReadError

def message : ReadError → String
  | lexical e => e.message
  | unexpectedToken found expected =>
    "unexpected " ++ found.token.description ++ " at position " ++ found.position.repr
      ++ ", expected " ++ expected.description
  | unexpectedEnd position expected =>
    "unexpected end of line at position " ++ position.repr ++ ", expected " ++ expected.description
  | field e => e.message

/-- A refused field has no place in the text. -/
def position? : ReadError → Option Nat
  | lexical e => some e.position
  | unexpectedToken found _ => some found.position
  | unexpectedEnd position _ => some position
  | field _ => none

end ReadError

/-- The first line of a program that could not be read; lines count from one. -/
structure ProgramError where
  number : Nat
  text : String
  cause : ReadError
  deriving DecidableEq, Inhabited

def ProgramError.message (e : ProgramError) : String :=
  "line " ++ e.number.repr ++ ": " ++ e.cause.message ++ "\n  " ++ e.text

end GCode
