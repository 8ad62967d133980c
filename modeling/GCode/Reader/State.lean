import GCode.Program
import GCode.Reader.Error

/-!
# States of the reader

The reader takes one token at a time. Its state says what may come next and where a real value goes
once it is complete:

    line     = ["/"] ["N" number] {segment} [comment to the end of the line]
    segment  = word | comment | setting
    word     = letter value
    setting  = "#" index "=" value
    index    = "<" name ">" | value
    value    = number | brackets | "#" index | unary brackets | "atan" brackets "/" brackets
    brackets = "[" value {binary value} "]"

The operators in one pair of brackets group from left to right.
-/

namespace GCode.Reader

/-- What becomes of the value in a pair of brackets. -/
inductive Purpose where
  | value
  | argument (op : UnaryOperator)
  /-- The first side of the ratio whose arc tangent is taken. -/
  | arcTangent
  /-- The second side of that ratio. -/
  | divisor (first : RealValue)

mutual
/-- Where a real value goes. -/
inductive Context where
  /-- It was asked for on its own. -/
  | alone
  /-- Into a word that was asked for on its own. -/
  | loneWord (letter : Char)
  | word (line : Line) (letter : Char)
  | setting (line : Line) (index : ParameterIndex)
  | index (use : IndexUse)
  /-- Into an open pair of brackets, behind the operand and the operator read there. -/
  | operand (left : Option (RealValue × BinaryOperator)) (purpose : Purpose) (k : Context)

/-- What a parameter index is for. -/
inductive IndexUse where
  | setting (line : Line)
  | reference (k : Context)
end

inductive State where
  /-- Nothing of a line is read yet. -/
  | start
  /-- At most the mark of a deleted line is read. -/
  | marked (line : Line)
  /-- Behind the `N` of a line number. -/
  | lineNumber (line : Line)
  /-- Between two segments. -/
  | segment (line : Line)
  /-- Behind the comment that runs to the end. -/
  | finished (line : Line)
  /-- Before the `=` of a setting. -/
  | equals (line : Line) (index : ParameterIndex)
  /-- Before a word that was asked for on its own. -/
  | word
  | value (k : Context)
  /-- Behind `#`. -/
  | index (use : IndexUse)
  /-- Before an opening bracket. -/
  | openBracket (purpose : Purpose) (k : Context)
  /-- Behind an operand in brackets. -/
  | operator (left : RealValue) (purpose : Purpose) (k : Context)
  /-- Between the two sides of the ratio of an arc tangent. -/
  | slash (first : RealValue) (k : Context)
  | wholeValue (value : RealValue)
  | wholeWord (word : Word)

namespace State

def expected : State → Expected
  | start | marked _ | segment _ => .segment
  | lineNumber _ => .lineNumber
  | finished _ | wholeValue _ | wholeWord _ => .endOfLine
  | equals .. => .equals
  | word => .wordLetter
  | value _ | index _ => .value
  | openBracket .. => .openBracket
  | operator .. => .operatorOrClose
  | slash .. => .slash

/-- The line, if it may end here. -/
def line? : State → Option Line
  | start => some {}
  | marked line | segment line | finished line => some line
  | _ => none

/-- The value that was asked for on its own, if it is complete. -/
def value? : State → Option RealValue
  | wholeValue v => some v
  | _ => none

/-- The word that was asked for on its own, if it is complete. -/
def word? : State → Option Word
  | wholeWord w => some w
  | _ => none

end State

end GCode.Reader
