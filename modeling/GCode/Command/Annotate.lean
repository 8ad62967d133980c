import GCode.Annotation
import GCode.Command.Config
import GCode.Command.Help
import GCode.Validation

/-!
# The command

The program is printed line by line. Below a line stand its words with what they mean, and then what is
wrong with the line.
-/

namespace GCode.Command

/-- What a run leaves behind. -/
structure Outcome where
  exitCode : Nat
  output : String
  errors : String
  deriving DecidableEq, Repr, Inhabited

/-- A text with spaces behind it up to the given width. -/
def padded (width : Nat) (text : String) : String :=
  text ++ String.ofList (List.replicate (width - text.toList.length) ' ')

/-- What is known about a word. -/
def notes (found : Annotation) : List String :=
  [found.meaning?.getD "?"]
    ++ (found.modalGroup.map fun group =>
      "modal group " ++ group.id.text ++ ": " ++ group.meaning).toList
    ++ (found.executionGroup.map fun group =>
      "execution order " ++ group.index.toNat.repr).toList

def annotationLine (found : Annotation) : String :=
  "  " ++ padded 8 found.word.text ++ " " ++ ", ".intercalate (notes found)

def diagnosticLine (diagnostic : Diagnostic) : String :=
  let label := match diagnostic.severity with
    | .error => "error"
    | .warning => "warning"
  "  " ++ label ++ ": " ++ diagnostic.message

/-- What is printed for the line with this number. -/
def lineOutput (flavor : Flavor) (report : Report) (number : Nat) (line : Line) : List String :=
  line.text :: (flavor.annotate line).map annotationLine ++ (report.ofLine number).map diagnosticLine

def linesOutput (flavor : Flavor) (report : Report) : Nat → List Line → List String
  | _, [] => []
  | number, line :: lines =>
    lineOutput flavor report number line ++ linesOutput flavor report (number + 1) lines

def unlines (lines : List String) : String :=
  String.join (lines.map (· ++ "\n"))

/-- The error with its line, and a mark below the place if it is known. -/
def parseErrorLines (e : ProgramError) : List String :=
  ("error: " ++ e.message) ::
    match e.cause.position? with
    | none => []
    | some position =>
      ["  " ++ e.text, "  " ++ String.ofList (List.replicate position ' ') ++ "^"]

/-- Annotates the text of a program. The run succeeds if the program can be read and is valid. -/
def annotate (flavor : Flavor) (text : String) : Outcome :=
  match readProgram text with
  | .error e => ⟨1, "", unlines (parseErrorLines e)⟩
  | .ok program =>
    let report := Validation.program program flavor
    ⟨if report.isValid then 0 else 1, unlines (linesOutput flavor report 1 program.lines), ""⟩

/-- A run that could not start. -/
def Failure.outcome (failure : Failure) : Outcome :=
  ⟨1, "", unlines failure.lines⟩

@[simp] theorem Failure.exitCode_outcome (failure : Failure) : failure.outcome.exitCode = 1 := rfl

def runConfig (files : FileSystem) (config : Config) : Outcome :=
  match config.registry files with
  | .error failure => failure.outcome
  | .ok registry =>
    match registry.activeFlavor? with
    | none => Failure.outcome { message := "no active flavor" }
    | some flavor =>
      match files.read config.file with
      | .error e => Failure.outcome { message := "failed to read " ++ config.file, causes := [e.message] }
      | .ok text => annotate flavor text

def runArguments (files : FileSystem) (userDirectory : Option String) (arguments : Arguments) : Outcome :=
  match Config.ofArguments files userDirectory arguments with
  | .error failure => failure.outcome
  | .ok config => runConfig files config

/-- Runs the command. Nothing is run if the arguments are no request that can be answered. -/
def run (files : FileSystem) (userDirectory : Option String) (arguments : List String) :
    Except UsageError Outcome :=
  match Arguments.parse arguments with
  | .ok arguments => .ok (runArguments files userDirectory arguments)
  | .error e =>
    match e.answer? with
    | some text => .ok ⟨0, text, ""⟩
    | none => .error e

end GCode.Command
