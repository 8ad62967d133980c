import GCode.Flavor.Code
import GCode.Flavor.Definition

/-!
# The table of codes

The entries stand in the order of their codes. An entry knows the groups that its code belongs to.
-/

namespace GCode

structure ModalGroupId where
  kind : GroupKind
  index : UInt32
  deriving DecidableEq, Inhabited

def GroupKind.text : GroupKind → String
  | g => "G"
  | m => "M"

def ModalGroupId.text (id : ModalGroupId) : String :=
  id.index.toNat.repr ++ " (" ++ id.kind.text ++ ")"

structure CodeEntry where
  /-- In canonical spelling. -/
  code : String
  meaning : String
  doc : Option String
  modalGroup : Option ModalGroupId := none
  /-- The number of the group in the execution order. -/
  executionGroup : Option UInt32 := none
  deriving DecidableEq, Inhabited

structure CodeTable where
  entries : List CodeEntry := []
  deriving DecidableEq, Inhabited

namespace CodeTable

/-- The entry of a code in canonical spelling. -/
def get? (table : CodeTable) (code : String) : Option CodeEntry :=
  table.entries.find? fun entry => entry.code == code

def contains (table : CodeTable) (code : String) : Bool :=
  (table.get? code).isSome

/-- The codes, in order. -/
def codes (table : CodeTable) : List String :=
  table.entries.map CodeEntry.code

/-- Adds an entry to the entries before it; a code is defined only once. -/
def define (entries : List CodeEntry) (definition : CodeDefinition) :
    Except LoadError (List CodeEntry) := do
  let code ← Code.normalize definition.code
  if entries.any fun entry => entry.code == code then
    throw (.duplicateEntry "gcode" code)
  return entries ++ [{ code, meaning := definition.meaning, doc := definition.doc }]

def ofDefinitions (definitions : List CodeDefinition) : Except LoadError CodeTable := do
  let entries ← definitions.foldlM define []
  return ⟨entries.mergeSort fun a b => Code.le a.code b.code⟩

/-! ## Ranges -/

def position (table : CodeTable) (code : String) : Except LoadError Nat :=
  match table.codes.idxOf? code with
  | some i => .ok i
  | none => .error (.unknownCode "range" code)

/-- The codes from one to another, both included. -/
def range (table : CodeTable) (start stop : String) : Except LoadError (List String) := do
  let first ← table.position start
  let last ← table.position stop
  if last < first then
    throw (.invalidRange (start ++ "-" ++ stop))
  return (table.codes.drop first).take (last + 1 - first)

/-- The codes that an entry of a group stands for: one code, or a range. The table that holds the group
is named in the error. -/
def expand (table : CodeTable) (entry : String) (holder : String) : Except LoadError (List String) :=
  match CodeRange.read? (Text.trim entry.toList) with
  | some range => do
    if !range.isUniform then
      throw (.malformedRange entry)
    let start ← Code.normalize range.startText
    let stop ← Code.normalize range.stopText
    table.range start stop
  | none => do
    if entry.toList.contains '-' then
      throw (.malformedRange entry)
    let code ← Code.normalize entry
    if table.contains code then
      return [code]
    else
      throw (.unknownCode holder code)

/-- Changes the entry of a code. -/
def update (table : CodeTable) (code : String) (f : CodeEntry → CodeEntry) : CodeTable :=
  ⟨table.entries.map fun entry => if entry.code == code then f entry else entry⟩

/-- Puts a code into a modal group, if it is in none. -/
def assignModalGroup (id : ModalGroupId) (table : CodeTable) (code : String) :
    Except LoadError CodeTable :=
  match (table.get? code).bind CodeEntry.modalGroup with
  | some existing => .error (.alreadyAssigned code "modal group" existing.text)
  | none => .ok (table.update code fun entry => { entry with modalGroup := some id })

/-- Puts a code into a group of the execution order, if it is in none. -/
def assignExecutionGroup (index : UInt32) (table : CodeTable) (code : String) :
    Except LoadError CodeTable :=
  match (table.get? code).bind CodeEntry.executionGroup with
  | some existing => .error (.alreadyAssigned code "execution order group" existing.toNat.repr)
  | none => .ok (table.update code fun entry => { entry with executionGroup := some index })

end CodeTable

end GCode
