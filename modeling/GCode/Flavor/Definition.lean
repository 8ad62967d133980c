/-!
# Definitions of a flavor

What a flavor is described by. Nothing here is checked.
-/

namespace GCode

structure CodeDefinition where
  code : String
  meaning : String
  doc : Option String := none
  deriving DecidableEq, Repr, Inhabited

structure LetterDefinition where
  letter : String
  meaning : String
  deriving DecidableEq, Repr, Inhabited

/-- `G` and `M` groups are numbered independently. -/
inductive GroupKind where
  | g
  | m
  deriving DecidableEq, Repr, Inhabited

structure ModalGroupDefinition where
  index : UInt32
  kind : GroupKind := .g
  meaning : String
  /-- Codes and ranges of codes. -/
  codes : List String
  deriving DecidableEq, Inhabited

structure ExecutionGroupDefinition where
  index : UInt32
  meaning : String
  /-- Codes, ranges of codes, and the word for comments. -/
  codes : List String
  deriving DecidableEq, Inhabited

structure ParameterDefinition where
  index : UInt32
  value : Float
  meaning : String
  deriving DecidableEq, Inhabited

structure FlavorDefinition where
  name : String
  version : Option String := none
  description : Option String := none
  codes : List CodeDefinition := []
  letters : List LetterDefinition := []
  modalGroups : List ModalGroupDefinition := []
  executionOrder : List ExecutionGroupDefinition := []
  parameters : List ParameterDefinition := []
  deriving DecidableEq, Inhabited

end GCode
