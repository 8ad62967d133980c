import GCode.Value.Operator
import GCode.Decimal.Text

/-!
# Evaluation errors
-/

namespace GCode

inductive EvaluationError where
  /-- A parameter was read where there are none. -/
  | unresolvedParameter (index : String)
  | unknownParameter (index : String)
  | divisionByZero (op : BinaryOperator)
  /-- The result is not a finite number. -/
  | undefined (op : Operator) (argument : Float)
  deriving DecidableEq, Inhabited

def EvaluationError.message : EvaluationError → String
  | unresolvedParameter index => "parameter #" ++ index ++ " cannot be resolved without a machine context"
  | unknownParameter index => "parameter #" ++ index ++ " has no value"
  | divisionByZero op => "division by zero in " ++ op.keyword
  | undefined op argument => op.keyword ++ "[" ++ Binary64.text argument ++ "] is undefined"

end GCode
