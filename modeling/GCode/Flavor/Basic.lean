import GCode.Flavor.Group
import GCode.Line.Word
import GCode.Value.Evaluate

/-!
# Flavors

A flavor is what one kind of machine understands: its codes and their groups, its letters, and its
parameters. The tables of a loaded flavor agree with each other.
-/

namespace GCode

structure Letter where
  letter : Char
  meaning : String
  deriving DecidableEq, Inhabited

structure Parameter where
  index : UInt32
  value : Float
  meaning : String
  deriving DecidableEq, Inhabited

structure Flavor where
  name : String
  version : Option String
  description : Option String
  codes : CodeTable
  /-- In alphabetical order. -/
  letters : List Letter
  /-- In the order of their numbers. -/
  modalGroups : List ModalGroup
  executionOrder : List ExecutionGroup
  /-- In the order of their numbers. -/
  parameters : List Parameter
  deriving DecidableEq, Inhabited

/-! ## Loading -/

namespace Letter

/-- The letter that a text is, in upper case. -/
def read? (text : String) : Option Char :=
  match Text.trim text.toList with
  | [c] => if c.isAlpha then some c.toUpper else none
  | _ => none

def define (letters : List Letter) (definition : LetterDefinition) : Except LoadError (List Letter) :=
  match read? definition.letter with
  | none => .error (.invalidLetter definition.letter)
  | some c =>
    if letters.any fun letter => letter.letter == c then
      .error (.duplicateEntry "letter" c.toString)
    else
      .ok (letters ++ [⟨c, definition.meaning⟩])

def loadAll (definitions : List LetterDefinition) : Except LoadError (List Letter) := do
  let letters ← definitions.foldlM define []
  return letters.mergeSort fun a b => a.letter ≤ b.letter

end Letter

namespace Parameter

def define (parameters : List Parameter) (definition : ParameterDefinition) :
    Except LoadError (List Parameter) :=
  if parameters.any fun parameter => parameter.index == definition.index then
    .error (.duplicateEntry "parameter" definition.index.toNat.repr)
  else
    .ok (parameters ++ [⟨definition.index, definition.value, definition.meaning⟩])

def loadAll (definitions : List ParameterDefinition) : Except LoadError (List Parameter) := do
  let parameters ← definitions.foldlM define []
  return parameters.mergeSort fun a b => a.index ≤ b.index

end Parameter

namespace Flavor

/-- Builds all tables. The codes come first, because the groups refer to them. -/
def load (definition : FlavorDefinition) : Except LoadError Flavor := do
  let codes ← CodeTable.ofDefinitions definition.codes
  let letters ← Letter.loadAll definition.letters
  let parameters ← Parameter.loadAll definition.parameters
  let (codes, modalGroups) ← ModalGroup.loadAll codes definition.modalGroups
  let (codes, executionOrder) ← ExecutionGroup.loadAll codes definition.executionOrder
  return {
    name := definition.name
    version := definition.version
    description := definition.description
    codes, letters, modalGroups, executionOrder, parameters }

/-! ## Looking things up -/

def letter? (flavor : Flavor) (c : Char) : Option Letter :=
  flavor.letters.find? fun letter => letter.letter == c.toUpper

def codeLetters (flavor : Flavor) : List Letter :=
  flavor.letters.filter fun letter => isCodeLetter letter.letter

def axes (flavor : Flavor) : List Letter :=
  flavor.letters.filter fun letter => axisLetters.contains letter.letter

def modalGroup? (flavor : Flavor) (id : ModalGroupId) : Option ModalGroup :=
  flavor.modalGroups.find? fun group => group.id == id

/-- The group with a number of the execution order; numbers start at one. -/
def executionGroup? (flavor : Flavor) (index : UInt32) : Option ExecutionGroup :=
  if index = 0 then none else flavor.executionOrder[index.toNat - 1]?

/-- The number of the first group that comments belong to. -/
def commentIndex? (flavor : Flavor) : Option UInt32 :=
  (flavor.executionOrder.find? ExecutionGroup.holdsComments).map ExecutionGroup.index

def parameter? (flavor : Flavor) (index : UInt32) : Option Parameter :=
  flavor.parameters.find? fun parameter => parameter.index == index

/-- The parameters with the values that they start with. -/
def initialParameters (flavor : Flavor) : Parameters where
  numbered index := (flavor.parameter? index).map Parameter.value

/-- What a word selects in the table of codes: a `G` or `M` word its code, any other word its letter. -/
def entryOf (flavor : Flavor) (word : Word) : Option CodeEntry :=
  match word.code? with
  | some code => flavor.codes.get? code
  | none => if word.selectsCode then none else flavor.codes.get? word.letter.toString

def modalGroupOf (flavor : Flavor) (entry : CodeEntry) : Option ModalGroup :=
  entry.modalGroup.bind flavor.modalGroup?

def executionGroupOf (flavor : Flavor) (entry : CodeEntry) : Option ExecutionGroup :=
  entry.executionGroup.bind flavor.executionGroup?

/-- The meaning of what a word selects, or else of its letter. -/
def describe (flavor : Flavor) (word : Word) : Option String :=
  match flavor.entryOf word with
  | some entry => some entry.meaning
  | none => (flavor.letter? word.letter).map Letter.meaning

end Flavor

end GCode
