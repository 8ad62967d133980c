import GCode.Decimal.Text
import GCode.Text.Quoted

/-!
# Refused fields

Why a part of a line cannot be built from what it was given.
-/

namespace GCode

inductive FieldError where
  | invalidLetter (letter : Char)
  | commentContainsParenthesis (text : String)
  | invalidParameterIndex (value : Float)
  | invalidParameterName (name : String)
  | invalidLineNumber (value : Float)
  deriving DecidableEq, Inhabited

def FieldError.message : FieldError → String
  | invalidLetter letter => "'" ++ letter.toString ++ "' is not a valid word letter"
  | commentContainsParenthesis text => "comment cannot contain a nested parenthesis: " ++ Text.quoted text
  | invalidParameterIndex value => Binary64.text value ++ " is not a valid parameter index"
  | invalidParameterName name => "'" ++ name ++ "' is not a valid parameter name"
  | invalidLineNumber value =>
    "line number must be a non-negative number, got " ++ Binary64.text value

end GCode
