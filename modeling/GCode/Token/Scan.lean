import GCode.Line.Word
import GCode.Text.Blank
import GCode.Token.Basic
import GCode.Token.Literal

/-!
# Scanning one token

A scanner looks at the character that starts a token and the text behind it. It gives the token with
its width, which is the number of characters that spell it.
-/

namespace GCode

/-- A token and the number of characters that spell it. -/
structure Lexeme where
  token : Token
  width : Nat
  deriving DecidableEq, Inhabited

/-- Spaces and tabs separate tokens. -/
def isGap (c : Char) : Bool :=
  c = ' ' || c = '\t'

namespace Lexeme

def isCommentChar (c : Char) : Bool :=
  c ≠ '(' && c ≠ ')'

/-- A comment whose parenthesis opens at `position`, with `cs` behind it. -/
def comment (position : Nat) (cs : List Char) : Except LexicalError Lexeme :=
  let text := cs.takeWhile isCommentChar
  match cs.drop text.length with
  | ')' :: _ => .ok ⟨.comment (String.ofList text), text.length + 2⟩
  | _ :: _ => .error (.nestedComment (position + 1 + text.length))
  | [] => .error (.unterminatedComment position)

/-- A parameter name whose angle bracket opens at `position`, with `cs` behind it. -/
def name (position : Nat) (cs : List Char) : Except LexicalError Lexeme :=
  let text := cs.takeWhile ParameterIndex.isNameChar
  match cs.drop text.length with
  | c :: _ =>
    if c = '>' && !text.isEmpty then
      .ok ⟨.name (String.ofList text), text.length + 2⟩
    else
      .error (.unexpectedCharacter (position + 1 + text.length) c)
  | [] => .error (.unterminatedName position)

def lineComment (cs : List Char) : Lexeme :=
  ⟨.lineComment (String.ofList (Text.trim cs)), cs.length + 1⟩

/-- The literal at the front of a text where a number starts. -/
def literal (cs : List Char) : Lexeme :=
  let text := Literal.cut cs
  ⟨.number (Literal.number text) (Literal.classify text), text.length⟩

/-- The longest keyword here, or else a letter. -/
def keywordOrLetter (position : Nat) (c : Char) (cs : List Char) : Except LexicalError Lexeme :=
  match Operator.atFront? (c :: cs) with
  | some op => .ok ⟨.operator op, op.keyword.length⟩
  | none =>
    if c.toUpper = 'N' || isWordLetter c then
      .ok ⟨.letter c.toUpper, 1⟩
    else
      .error (.unexpectedCharacter position c)

/-- The token that starts with `c`. -/
def scan (afterOperand : Bool) (position : Nat) (c : Char) (cs : List Char) :
    Except LexicalError Lexeme :=
  match c with
  | '[' => .ok ⟨.leftBracket, 1⟩
  | ']' => .ok ⟨.rightBracket, 1⟩
  | '=' => .ok ⟨.equals, 1⟩
  | '#' => .ok ⟨.hash, 1⟩
  | '(' => comment position cs
  | '<' => name position cs
  | ';' => .ok (lineComment cs)
  | _ =>
    if Numeral.startsAt afterOperand (c :: cs) then
      .ok (literal (c :: cs))
    else
      keywordOrLetter position c cs

end Lexeme

end GCode
