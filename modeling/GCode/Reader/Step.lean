import GCode.Reader.State

/-!
# Steps of the reader

A step takes one token. It is refused if the token may not stand here, or if a complete part of the
line is not acceptable.
-/

namespace GCode.Reader

inductive Refusal where
  | unexpected
  | field (e : FieldError)
  deriving DecidableEq, Inhabited

/-! ## Complete values -/

mutual
/-- Puts a complete value where it goes. -/
def Context.put : Context → RealValue → Except FieldError State
  | .alone, v => .ok (.wholeValue v)
  | .loneWord letter, v => (Word.make letter v).map .wholeWord
  | .word line letter, v => (Word.make letter v).map fun w => .segment (line.push (.word w))
  | .setting line i, v => .ok (.segment (line.push (.setting ⟨i, v⟩)))
  | .index use, v => do
    let i ← ParameterIndex.ofValue v
    use.put i
  | .operand none purpose k, v => .ok (.operator v purpose k)
  | .operand (some (left, op)) purpose k, v => .ok (.operator (.binary op left v) purpose k)

def IndexUse.put : IndexUse → ParameterIndex → Except FieldError State
  | .setting line, i => .ok (.equals line i)
  | .reference k, i => k.put (.parameter i)
end

/-- Puts the value of a closed pair of brackets where it goes. -/
def Purpose.put (k : Context) (v : RealValue) : Purpose → Except FieldError State
  | .value => k.put v
  | .argument op => k.put (.unary op v)
  | .arcTangent => .ok (.slash v k)
  | .divisor first => k.put (.binary .divide (.unary .arcTangent first) v)

def accept (result : Except FieldError State) : Except Refusal State :=
  result.mapError .field

/-! ## Tokens -/

namespace State

/-- A token that may start a segment. -/
def stepSegment (line : Line) : Token → Except Refusal State
  | .lineComment text => accept ((line.setComment (some text)).map finished)
  | .comment text => accept ((Comment.make text).map fun c => segment (line.push (.comment c)))
  | .hash => .ok (index (.setting line))
  | .letter c => if c = 'N' then .error .unexpected else .ok (value (.word line c))
  | _ => .error .unexpected

/-- A token behind the mark of a deleted line. -/
def stepMarked (line : Line) : Token → Except Refusal State
  | .letter 'N' => .ok (lineNumber line)
  | token => stepSegment line token

/-- A token that may start a real value. -/
def stepValue (k : Context) : Token → Except Refusal State
  | .number n _ => accept (k.put (.literal n))
  | .leftBracket => .ok (value (.operand none .value k))
  | .hash => .ok (index (.reference k))
  | .operator (.unary .arcTangent) => .ok (openBracket .arcTangent k)
  | .operator (.unary op) => .ok (openBracket (.argument op) k)
  | _ => .error .unexpected

def step : State → Token → Except Refusal State
  | start, .operator (.binary .divide) => .ok (marked { deleted := true })
  | start, token => stepMarked {} token
  | marked line, token => stepMarked line token
  | lineNumber line, .number n .positiveInteger => accept ((line.setNumber (some n.value)).map segment)
  | lineNumber line, .number n .positiveReal => accept ((line.setNumber (some n.value)).map segment)
  | segment line, token => stepSegment line token
  | equals line i, .equals => .ok (value (.setting line i))
  | word, .letter c => if c = 'N' then .error .unexpected else .ok (value (.loneWord c))
  | value k, token => stepValue k token
  | index use, .name text => accept (ParameterIndex.ofName text >>= use.put)
  | index use, token => stepValue (.index use) token
  | openBracket purpose k, .leftBracket => .ok (value (.operand none purpose k))
  | operator left purpose k, .operator (.binary op) => .ok (value (.operand (some (left, op)) purpose k))
  | operator left purpose k, .rightBracket => accept (purpose.put k left)
  | slash first k, .operator (.binary .divide) => .ok (openBracket (.divisor first) k)
  | _, _ => .error .unexpected

/-- Takes tokens until one is refused. -/
def run : State → List PlacedToken → Except ReadError State
  | state, [] => .ok state
  | state, token :: tokens =>
    match state.step token.token with
    | .ok next => next.run tokens
    | .error .unexpected => .error (.unexpectedToken token state.expected)
    | .error (.field e) => .error (.field e)

/-- Takes all tokens of a text with `length` characters, which must be complete then. -/
def read {α : Type} (result? : State → Option α) (length : Nat) (state : State)
    (tokens : List PlacedToken) : Except ReadError α := do
  let last ← state.run tokens
  match result? last with
  | some result => .ok result
  | none => .error (.unexpectedEnd length last.expected)

end State

end GCode.Reader
