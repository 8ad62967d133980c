import GCode.Value.Error
import GCode.Binary64.Modulo

/-!
# Applying operators

Angles are in degrees. Every number but zero counts as true, and a truth value is one or zero. A result
that is not finite is an error.
-/

namespace GCode

namespace Arithmetic

def pi : Float := 3.141592653589793

def toDegrees (x : Float) : Float :=
  x * (180.0 / pi)

def toRadians (x : Float) : Float :=
  x * (pi / 180.0)

def truth (b : Bool) : Float :=
  if b then 1.0 else 0.0

end Arithmetic

open Arithmetic Binary64

def UnaryOperator.function : UnaryOperator → Float → Float
  | absoluteValue, x => x.abs
  | arcCosine, x => toDegrees x.acos
  | arcSine, x => toDegrees x.asin
  | arcTangent, x => toDegrees x.atan
  | cosine, x => (toRadians x).cos
  | eRaisedTo, x => x.exp
  | fixDown, x => x.floor
  | fixUp, x => x.ceil
  | naturalLogOf, x => x.log
  | round, x => x.round
  | sine, x => (toRadians x).sin
  | squareRoot, x => x.sqrt
  | tangent, x => (toRadians x).tan

def UnaryOperator.apply (op : UnaryOperator) (x : Float) : Except EvaluationError Float :=
  let result := op.function x
  if isFinite result then .ok result else .error (.undefined (.unary op) x)

def BinaryOperator.function : BinaryOperator → Float → Float → Float
  | power, x, y => x ^ y
  | divide, x, y => x / y
  | modulo, x, y => Binary64.modulo x y
  | multiply, x, y => x * y
  | and, x, y => truth (!isZero x && !isZero y)
  | exclusiveOr, x, y => truth (isZero x != isZero y)
  | subtract, x, y => x - y
  | or, x, y => truth (!isZero x || !isZero y)
  | add, x, y => x + y

def BinaryOperator.divides : BinaryOperator → Bool
  | divide | modulo => true
  | _ => false

def BinaryOperator.apply (op : BinaryOperator) (x y : Float) : Except EvaluationError Float :=
  if op.divides && isZero y then
    .error (.divisionByZero op)
  else
    let result := op.function x y
    if isFinite result then .ok result else .error (.undefined (.binary op) x)

end GCode
