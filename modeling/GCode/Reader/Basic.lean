import GCode.Reader.Step
import GCode.Token.Scanner

/-!
# Reading lines, programs, values and words

A reader keeps one scanner for all the texts that it reads. Every reading gives the reader back as it
is afterwards.
-/

namespace GCode

structure Reader where
  scanner : Scanner := {}
  deriving Inhabited

namespace Reader

/-- Reads a whole text from the given state. -/
def read {α : Type} (reader : Reader) (state : State) (result? : State → Option α) (text : String) :
    Except ReadError α × Reader :=
  let (tokens, scanner) := reader.scanner.tokenize text
  let result := do
    let tokens ← tokens.mapError ReadError.lexical
    state.read result? scanner.length tokens
  (result, ⟨scanner⟩)

/-- The text of a line without what ends the line. -/
def lineText (text : String) : String :=
  String.ofList (Text.dropEndWhile Text.isLineEnd text.toList)

def line (reader : Reader) (text : String) : Except ReadError Line × Reader :=
  reader.read .start State.line? (lineText text)

def value (reader : Reader) (text : String) : Except ReadError RealValue × Reader :=
  reader.read (.value .alone) State.value? text

def word (reader : Reader) (text : String) : Except ReadError Word × Reader :=
  reader.read .word State.word? text

def isBlank (text : String) : Bool :=
  text.toList.all Text.isBlank

/-- Reads the lines that are not blank; `number` is the number of the first text. -/
def linesFrom (reader : Reader) (number : Nat) :
    List String → Except ProgramError (List Line) × Reader
  | [] => (.ok [], reader)
  | text :: texts =>
    if isBlank text then
      reader.linesFrom (number + 1) texts
    else
      match reader.line text with
      | (.error cause, reader) => (.error ⟨number, text, cause⟩, reader)
      | (.ok line, reader) =>
        let (lines, reader) := reader.linesFrom (number + 1) texts
        (lines.map (line :: ·), reader)

/-- The program of the texts that are not blank, or the first one that is no line. -/
def lines (reader : Reader) (texts : List String) : Except ProgramError Program × Reader :=
  let (lines, reader) := reader.linesFrom 1 texts
  (lines.map Program.mk, reader)

end Reader

/-- The lines of a text. -/
def textLines (text : String) : List String :=
  (Text.lines text.toList).map String.ofList

def Reader.program (reader : Reader) (text : String) : Except ProgramError Program × Reader :=
  reader.lines (textLines text)

def readLine (text : String) : Except ReadError Line :=
  (({} : Reader).line text).1

def readValue (text : String) : Except ReadError RealValue :=
  (({} : Reader).value text).1

def readWord (text : String) : Except ReadError Word :=
  (({} : Reader).word text).1

def readLines (texts : List String) : Except ProgramError Program :=
  (({} : Reader).lines texts).1

def readProgram (text : String) : Except ProgramError Program :=
  (({} : Reader).program text).1

end GCode
