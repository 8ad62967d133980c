import GCode.Value.Basic

/-!
# Written values

Every operation is written in brackets of its own, so the text of a value can be read back anywhere.
-/

namespace GCode

mutual
def RealValue.text : RealValue → String
  | .literal number => number.text
  | .parameter index => "#" ++ index.text
  | .unary op arg => op.keyword ++ "[" ++ arg.text ++ "]"
  | .binary op left right =>
    -- what an arc tangent is divided by always stands in brackets
    if op = .divide && left.isArcTangent && !right.isBinary then
      "[" ++ left.text ++ " / [" ++ right.text ++ "]]"
    else
      "[" ++ left.text ++ " " ++ op.keyword ++ " " ++ right.text ++ "]"

def ParameterIndex.text : ParameterIndex → String
  | .number n => n.toNat.repr
  | .named name => "<" ++ name ++ ">"
  | .expression value => value.text
end

end GCode
