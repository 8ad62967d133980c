import GCode.Line.Word

/-!
# Items of a line

Words, inline comments and parameter settings.
-/

namespace GCode

/-- A text without some characters can be a comment. -/
def checkComment (forbidden : List Char) (text : String) : Except FieldError Unit :=
  if text.toList.any forbidden.contains then
    .error (.commentContainsParenthesis text)
  else
    .ok ()

/-- An inline comment, without its parentheses. -/
structure Comment where
  text : String
  deriving BEq, DecidableEq, Inhabited

namespace Comment

def make (text : String) : Except FieldError Comment := do
  checkComment ['(', ')'] text
  return ⟨text⟩

def setText (_ : Comment) (text : String) : Except FieldError Comment :=
  make text

def written (comment : Comment) : String :=
  "(" ++ comment.text ++ ")"

end Comment

/-- `#index=value` -/
structure Setting where
  index : ParameterIndex
  value : RealValue
  deriving BEq, DecidableEq, Inhabited

namespace Setting

def setValue (setting : Setting) (value : RealValue) : Setting :=
  { setting with value }

def text (setting : Setting) : String :=
  "#" ++ setting.index.text ++ "=" ++ setting.value.text

end Setting

inductive Item where
  | word (word : Word)
  | comment (comment : Comment)
  | setting (setting : Setting)
  deriving BEq, DecidableEq, Inhabited

namespace Item

def word? : Item → Option Word
  | word w => some w
  | _ => none

def comment? : Item → Option Comment
  | comment c => some c
  | _ => none

def setting? : Item → Option Setting
  | setting s => some s
  | _ => none

def isComment : Item → Bool
  | comment _ => true
  | _ => false

def text : Item → String
  | word w => w.text
  | comment c => c.written
  | setting s => s.text

end Item

end GCode
