import GCode.Text.Case

/-!
# Operators

Every operator has one keyword, read without regard to case.
-/

namespace GCode

inductive UnaryOperator where
  | absoluteValue
  | arcCosine
  | arcSine
  | arcTangent
  | cosine
  | eRaisedTo
  | fixDown
  | fixUp
  | naturalLogOf
  | round
  | sine
  | squareRoot
  | tangent
  deriving DecidableEq, Repr, Inhabited

inductive BinaryOperator where
  | power
  | divide
  | modulo
  | multiply
  | and
  | exclusiveOr
  | subtract
  | or
  | add
  deriving DecidableEq, Repr, Inhabited

namespace UnaryOperator

def all : List UnaryOperator :=
  [absoluteValue, arcCosine, arcSine, arcTangent, cosine, eRaisedTo, fixDown, fixUp, naturalLogOf,
    round, sine, squareRoot, tangent]

def keyword : UnaryOperator → String
  | absoluteValue => "abs"
  | arcCosine => "acos"
  | arcSine => "asin"
  | arcTangent => "atan"
  | cosine => "cos"
  | eRaisedTo => "exp"
  | fixDown => "fix"
  | fixUp => "fup"
  | naturalLogOf => "ln"
  | round => "round"
  | sine => "sin"
  | squareRoot => "sqrt"
  | tangent => "tan"

def name : UnaryOperator → String
  | absoluteValue => "absolute value"
  | arcCosine => "arc cosine"
  | arcSine => "arc sine"
  | arcTangent => "arc tangent"
  | cosine => "cosine"
  | eRaisedTo => "e raised to"
  | fixDown => "fix down"
  | fixUp => "fix up"
  | naturalLogOf => "natural log of"
  | round => "round"
  | sine => "sine"
  | squareRoot => "square root"
  | tangent => "tangent"

def ofKeyword? (text : String) : Option UnaryOperator :=
  all.find? fun op => Text.sameIgnoringCase op.keyword text

theorem mem_all (op : UnaryOperator) : op ∈ all := by
  cases op <;> decide

theorem ofKeyword?_keyword (op : UnaryOperator) : ofKeyword? op.keyword = some op := by
  cases op <;> decide

/-- All but the arc tangent, which takes its argument as two bracketed sides of a ratio. -/
def isOrdinary (op : UnaryOperator) : Bool :=
  op ≠ arcTangent

end UnaryOperator

namespace BinaryOperator

def all : List BinaryOperator :=
  [power, divide, modulo, multiply, and, exclusiveOr, subtract, or, add]

def keyword : BinaryOperator → String
  | power => "**"
  | divide => "/"
  | modulo => "mod"
  | multiply => "*"
  | and => "and"
  | exclusiveOr => "xor"
  | subtract => "-"
  | or => "or"
  | add => "+"

def name : BinaryOperator → String
  | power => "power"
  | divide => "divided by"
  | modulo => "modulo"
  | multiply => "times"
  | and => "and"
  | exclusiveOr => "exclusive or"
  | subtract => "minus"
  | or => "non exclusive or"
  | add => "plus"

/-- From 1, which binds tightest, to 3. Brackets decide how a value is read, so this is only for display. -/
def precedence : BinaryOperator → Nat
  | power => 1
  | divide | modulo | multiply => 2
  | and | exclusiveOr | subtract | or | add => 3

def ofKeyword? (text : String) : Option BinaryOperator :=
  all.find? fun op => Text.sameIgnoringCase op.keyword text

theorem mem_all (op : BinaryOperator) : op ∈ all := by
  cases op <;> decide

theorem ofKeyword?_keyword (op : BinaryOperator) : ofKeyword? op.keyword = some op := by
  cases op <;> decide

end BinaryOperator

inductive Operator where
  | unary (op : UnaryOperator)
  | binary (op : BinaryOperator)
  deriving DecidableEq, Repr, Inhabited

namespace Operator

def keyword : Operator → String
  | unary op => op.keyword
  | binary op => op.keyword

def all : List Operator :=
  UnaryOperator.all.map unary ++ BinaryOperator.all.map binary

theorem mem_all (op : Operator) : op ∈ all := by
  cases op with
  | unary op => exact List.mem_append_left _ (List.mem_map_of_mem op.mem_all)
  | binary op => exact List.mem_append_right _ (List.mem_map_of_mem op.mem_all)

/-- All operators, the longer keywords first. -/
def longestFirst : List Operator :=
  [unary .round, unary .arcCosine, unary .arcSine, unary .arcTangent, unary .squareRoot,
    unary .absoluteValue, unary .cosine, unary .eRaisedTo, unary .fixDown, unary .fixUp, unary .sine,
    unary .tangent, binary .modulo, binary .and, binary .exclusiveOr,
    unary .naturalLogOf, binary .power, binary .or,
    binary .divide, binary .multiply, binary .subtract, binary .add]

theorem mem_longestFirst (op : Operator) : op ∈ longestFirst := by
  cases op with
  | unary op => cases op <;> decide
  | binary op => cases op <;> decide

/-- A longer keyword never stands behind a shorter one. -/
theorem longestFirst_sorted : longestFirst.Pairwise fun a b => b.keyword.length ≤ a.keyword.length := by
  decide

/-- The operator with the longest keyword at the front of a text. -/
def atFront? (cs : List Char) : Option Operator :=
  longestFirst.find? fun op => Text.startsIgnoringCase op.keyword.toList cs

end Operator

end GCode
