import GCode.Flavor.Basic
import GCode.Reader.Basic

/-!
# Validation

What a flavor finds wrong with a line that can be read: a word that is repeated, codes that exclude each
other, too many `M` words, and codes that it does not know.
-/

namespace GCode

inductive Severity where
  | error
  | warning
  deriving DecidableEq, Repr, Inhabited

structure Diagnostic where
  /-- The number of the line, from one. -/
  line : Nat
  message : String
  severity : Severity
  deriving DecidableEq, Repr, Inhabited

/-- Diagnostics in the order in which they were found. -/
structure Report where
  diagnostics : List Diagnostic := []
  deriving DecidableEq, Repr, Inhabited

namespace Report

def add (report : Report) (severity : Severity) (line : Nat) (message : String) : Report :=
  ⟨report.diagnostics ++ [⟨line, message, severity⟩]⟩

def append (report other : Report) : Report :=
  ⟨report.diagnostics ++ other.diagnostics⟩

instance : Append Report := ⟨append⟩

@[simp] theorem diagnostics_append (a b : Report) :
    (a ++ b).diagnostics = a.diagnostics ++ b.diagnostics := rfl

@[simp] theorem diagnostics_add (report : Report) (severity : Severity) (line : Nat) (message : String) :
    (report.add severity line message).diagnostics =
      report.diagnostics ++ [⟨line, message, severity⟩] := rfl

/-- Warnings do not make a report invalid. -/
def isValid (report : Report) : Bool :=
  !report.diagnostics.any fun diagnostic => diagnostic.severity == .error

/-- The diagnostics of one line. -/
def ofLine (report : Report) (line : Nat) : List Diagnostic :=
  report.diagnostics.filter fun diagnostic => diagnostic.line == line

end Report

namespace Validation

/-- The most `M` words that one line may have. -/
def maxMWords : Nat := 4

/-- The group of the codes that exclude nothing. -/
def nonModal : ModalGroupId := ⟨.g, 0⟩

/-- What is known after some words of a line. -/
structure State where
  report : Report := {}
  /-- The letters of the words that select no code. -/
  letters : List Char := []
  /-- The last code of every modal group that has one. -/
  groups : List (ModalGroupId × String) := []
  deriving DecidableEq, Inhabited

/-- Two codes of one modal group on a line. -/
def conflict (flavor : Flavor) (previous code : String) (id : ModalGroupId) : String :=
  let meaning := ((flavor.modalGroup? id).map ModalGroup.meaning).getD ""
  "'" ++ previous ++ "' and '" ++ code ++ "' are both in modal group " ++ id.text ++ " (" ++ meaning ++ ")"

/-- A code of a modal group. -/
def checkGroup (flavor : Flavor) (number : Nat) (state : State) (code : String) (id : ModalGroupId) :
    State :=
  let groups := (id, code) :: state.groups.filter fun entry => entry.1 != id
  match state.groups.lookup id with
  | some previous =>
    { state with groups, report := state.report.add .error number (conflict flavor previous code id) }
  | none => { state with groups }

/-- A word that selects a code. -/
def checkCode (flavor : Flavor) (number : Nat) (state : State) (word : Word) : State :=
  match word.code? with
  | none =>
    let message := "Cannot classify '" ++ word.text ++ "': value is not a literal"
    { state with report := state.report.add .warning number message }
  | some code =>
    match flavor.codes.get? code with
    | none => { state with report := state.report.add .warning number ("Unknown code '" ++ code ++ "'") }
    | some entry =>
      match entry.modalGroup with
      | none => state
      | some id => if id = nonModal then state else checkGroup flavor number state code id

/-- A word that selects no code. -/
def checkLetter (number : Nat) (state : State) (word : Word) : State :=
  if state.letters.contains word.letter then
    let message := "Word '" ++ word.letter.toString ++ "' appears more than once"
    { state with report := state.report.add .error number message }
  else
    { state with letters := word.letter :: state.letters }

def checkWord (flavor : Flavor) (number : Nat) (state : State) (word : Word) : State :=
  if word.selectsCode then checkCode flavor number state word else checkLetter number state word

def mWords (line : Line) : Nat :=
  line.words.countP fun word => word.letter = 'M'

/-- What is wrong with the line that has this number. -/
def line (number : Nat) (line : Line) (flavor : Flavor) : Report :=
  let report := (line.words.foldl (checkWord flavor number) {}).report
  if maxMWords < mWords line then
    report.add .error number ((mWords line).repr ++ " M words on one line, at most " ++ maxMWords.repr
      ++ " are allowed")
  else
    report

/-- What is wrong with lines of which the first has this number. -/
def linesFrom (flavor : Flavor) : Nat → List Line → Report
  | _, [] => {}
  | number, l :: lines => line number l flavor ++ linesFrom flavor (number + 1) lines

def program (program : Program) (flavor : Flavor) : Report :=
  linesFrom flavor 1 program.lines

/-- What is wrong with texts of which the first has this number. A text that is no line is an error, and
the next one is looked at all the same. -/
def textsFrom (flavor : Flavor) : Nat → List String → Report
  | _, [] => {}
  | number, text :: texts =>
    let first := match readLine text with
      | .ok l => line number l flavor
      | .error e => ({} : Report).add .error number e.message
    first ++ textsFrom flavor (number + 1) texts

def document (text : String) (flavor : Flavor) : Report :=
  textsFrom flavor 1 (textLines text)

end Validation

end GCode
