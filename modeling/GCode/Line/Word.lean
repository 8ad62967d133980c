import GCode.Text.Bytes
import GCode.Value.Text

/-!
# Words

A word is a letter and a real value, such as `G1` or `X[#1 + 2]`.
-/

namespace GCode

/-- The letters of words. `N` is missing: it starts a line number. -/
def wordLetters : List Char :=
  ['A', 'B', 'C', 'D', 'F', 'G', 'H', 'I', 'J', 'K', 'L', 'M', 'P', 'Q', 'R', 'S', 'T', 'X', 'Y', 'Z']

def axisLetters : List Char :=
  ['A', 'B', 'C', 'X', 'Y', 'Z']

def isWordLetter (c : Char) : Bool :=
  wordLetters.contains c.toUpper

/-- The letters whose words select codes of the machine. -/
def isCodeLetter (c : Char) : Bool :=
  c = 'G' || c = 'M'

structure Word where
  letter : Char
  value : RealValue
  deriving BEq, DecidableEq, Inhabited

namespace Word

/-- The letter is kept in upper case. -/
def make (letter : Char) (value : RealValue) : Except FieldError Word :=
  if wordLetters.contains letter.toUpper then
    .ok ⟨letter.toUpper, value⟩
  else
    .error (.invalidLetter letter.toUpper)

def setValue (word : Word) (value : RealValue) : Word :=
  { word with value }

def selectsCode (word : Word) : Bool :=
  isCodeLetter word.letter

def isAxis (word : Word) : Bool :=
  axisLetters.contains word.letter

/-- The code of a `G` or `M` word with a literal value; the spelling of the number does not matter. -/
def code? (word : Word) : Option String :=
  if word.selectsCode then
    word.value.literal?.map fun number =>
      word.letter.toString ++ (Number.normalized number.value).text
  else
    none

/-- Whether a keyword is a letter and the front of a text. As many bytes of the text are compared as the rest of
the keyword has. -/
def completes (letter : Char) (text : List Char) : List Char → Bool
  | [] => false
  | k :: ks =>
    k.toLower == letter.toLower &&
      (Text.front? (Text.size ks) text).any fun front => front.map Char.toLower == ks.map Char.toLower

/-- Whether a letter directly before a text would read as a keyword, as `A` before `cos[0]` does. -/
def collides (letter : Char) (text : String) : Bool :=
  Operator.all.any fun op => completes letter text.toList op.keyword.toList

def text (word : Word) : String :=
  let value := word.value.text
  if collides word.letter value then
    word.letter.toString ++ " " ++ value
  else
    word.letter.toString ++ value

end Word

end GCode
