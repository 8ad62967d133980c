import GCode.Numeral
import GCode.Value.Operator

/-!
# Tokens

Positions count characters from the start of the line, from zero.
-/

namespace GCode

inductive Token where
  /-- A letter that can start a word, or `N`; in upper case. -/
  | letter (c : Char)
  | number (value : Number) (cls : NumeralClass)
  /-- The mark of a deleted line is the operator `/`. -/
  | operator (op : Operator)
  | leftBracket
  | rightBracket
  | equals
  | hash
  /-- The name in angle brackets. -/
  | name (text : String)
  | comment (text : String)
  /-- The comment that runs to the end of the line. -/
  | lineComment (text : String)
  deriving DecidableEq, Inhabited

namespace Token

/-- Whether an operand ends here, so that a sign behind it is an operator. -/
def endsOperand : Token → Bool
  | number .. | rightBracket | name _ => true
  | _ => false

def description : Token → String
  | letter c => "letter '" ++ c.toString ++ "'"
  | number value _ => "number " ++ value.text
  | operator op => "operator '" ++ op.keyword ++ "'"
  | leftBracket => "'['"
  | rightBracket => "']'"
  | equals => "'='"
  | hash => "'#'"
  | name text => "parameter name <" ++ text ++ ">"
  | comment _ => "comment"
  | lineComment _ => "end of line comment"

end Token

structure PlacedToken where
  token : Token
  position : Nat
  deriving DecidableEq, Inhabited

inductive LexicalError where
  | unexpectedCharacter (position : Nat) (character : Char)
  | nestedComment (position : Nat)
  | unterminatedComment (position : Nat)
  | unterminatedName (position : Nat)
  deriving DecidableEq, Repr, Inhabited

namespace LexicalError

def position : LexicalError → Nat
  | unexpectedCharacter p _ | nestedComment p | unterminatedComment p | unterminatedName p => p

def message : LexicalError → String
  | unexpectedCharacter p c => "unexpected character '" ++ c.toString ++ "' at position " ++ p.repr
  | nestedComment p => "comments cannot be nested, found '(' at position " ++ p.repr
  | unterminatedComment p => "comment opened at position " ++ p.repr ++ " is not closed"
  | unterminatedName p => "parameter name opened at position " ++ p.repr ++ " is not closed"

end LexicalError

end GCode
