import GCode.Value.Apply
import GCode.Value.Text

/-!
# Evaluation

A value is evaluated against the values of the parameters, or without any. Operands are evaluated from
left to right, and the first error ends the evaluation.
-/

namespace GCode

/-- The values of the parameters that have one. -/
structure Parameters where
  numbered : UInt32 → Option Float
  named : String → Option Float := fun _ => none

/-- The value of a parameter; a missing one is reported by its index. -/
def Parameters.found (value : Option Float) (index : String) : Except EvaluationError Float :=
  match value with
  | some x => .ok x
  | none => .error (.unknownParameter index)

mutual
/-- The value, given the parameters if there are any. -/
def RealValue.eval (parameters : Option Parameters) : RealValue → Except EvaluationError Float
  | .literal number => .ok number.value
  | .parameter index =>
    match parameters with
    | some p => index.lookup p
    | none => .error (.unresolvedParameter index.text)
  | .unary op arg => do
    let x ← arg.eval parameters
    op.apply x
  | .binary op left right => do
    let x ← left.eval parameters
    let y ← right.eval parameters
    op.apply x y

/-- The value of the parameter with this index. A computed index is reported by its value. -/
def ParameterIndex.lookup (p : Parameters) : ParameterIndex → Except EvaluationError Float
  | .number n => Parameters.found (p.numbered n) n.toNat.repr
  | .named name => Parameters.found (p.named name) ("<" ++ name ++ ">")
  | .expression value => do
    let x ← value.eval (some p)
    Parameters.found ((Number.normalized x).index?.bind p.numbered) (Binary64.text x)
end

/-- The value of a real value that reads no parameter. -/
def RealValue.evaluate (value : RealValue) : Except EvaluationError Float :=
  value.eval none

def RealValue.evaluateWith (p : Parameters) (value : RealValue) : Except EvaluationError Float :=
  value.eval (some p)

end GCode
