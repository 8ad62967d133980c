import GCode.FieldError
import GCode.Number
import GCode.Value.Operator

/-!
# Real values

A real value is a literal, a reference to a parameter, or an operation on real values. The parameter
may itself be given by a value.
-/

namespace GCode

mutual
inductive RealValue where
  | literal (number : Number)
  | parameter (index : ParameterIndex)
  | unary (op : UnaryOperator) (arg : RealValue)
  | binary (op : BinaryOperator) (left right : RealValue)
  deriving DecidableEq

/-- What stands behind `#`. -/
inductive ParameterIndex where
  | number (n : UInt32)
  | named (name : String)
  /-- A value that is known only when it is evaluated. -/
  | expression (value : RealValue)
  deriving DecidableEq
end

instance : Inhabited RealValue := ⟨.literal default⟩

instance : Inhabited ParameterIndex := ⟨.number 0⟩

namespace ParameterIndex

/-- A literal is an index only if it is whole and fits; any other value is kept to be evaluated. -/
def ofValue : RealValue → Except FieldError ParameterIndex
  | .literal literal =>
    match literal.index? with
    | some n => .ok (.number n)
    | none => .error (.invalidParameterIndex literal.value)
  | value => .ok (.expression value)

def isNameChar (c : Char) : Bool :=
  c.isAlphanum || c = '_'

def ofName (name : String) : Except FieldError ParameterIndex :=
  if name.toList.all isNameChar && !name.isEmpty then
    .ok (.named name)
  else
    .error (.invalidParameterName name)

end ParameterIndex

namespace RealValue

def literal? : RealValue → Option Number
  | literal number => some number
  | _ => none

def isArcTangent : RealValue → Bool
  | unary .arcTangent _ => true
  | _ => false

def isBinary : RealValue → Bool
  | binary .. => true
  | _ => false

/-- Whether the value depends on a parameter. -/
def hasParameters : RealValue → Bool
  | literal _ => false
  | parameter _ => true
  | unary _ arg => arg.hasParameters
  | binary _ left right => left.hasParameters || right.hasParameters

end RealValue

/-! ## Equality -/

mutual
/-- Values are equal if they are built alike from equal numbers. -/
protected def RealValue.beq : RealValue → RealValue → Bool
  | .literal m, .literal n => m == n
  | .parameter i, .parameter j => i.beq j
  | .unary op a, .unary op' a' => op == op' && a.beq a'
  | .binary op l r, .binary op' l' r' => op == op' && l.beq l' && r.beq r'
  | _, _ => false

protected def ParameterIndex.beq : ParameterIndex → ParameterIndex → Bool
  | .number m, .number n => m == n
  | .named s, .named t => s == t
  | .expression v, .expression w => v.beq w
  | _, _ => false
end

instance : BEq RealValue := ⟨RealValue.beq⟩

instance : BEq ParameterIndex := ⟨ParameterIndex.beq⟩

end GCode
