import GCode.Flavor.CodeTable

/-!
# Groups of codes

A modal group holds codes that exclude each other. The groups of the execution order are numbered from
one, and the codes of an earlier group take effect first.
-/

namespace GCode

structure ModalGroup where
  id : ModalGroupId
  meaning : String
  codes : List String
  deriving DecidableEq, Inhabited

/-- `G` groups come before `M` groups. -/
def ModalGroupId.le (a b : ModalGroupId) : Bool :=
  match a.kind, b.kind with
  | .g, .m => true
  | .m, .g => false
  | _, _ => a.index ≤ b.index

/-- A member of a group in the execution order. -/
inductive ExecutionItem where
  | comment
  | code (code : String)
  deriving DecidableEq, Inhabited

structure ExecutionGroup where
  index : UInt32
  meaning : String
  items : List ExecutionItem
  deriving DecidableEq, Inhabited

def ExecutionGroup.holdsComments (group : ExecutionGroup) : Bool :=
  group.items.contains .comment

/-! ## Modal groups -/

namespace ModalGroup

/-- Loads one group behind the groups before it, and links the entries of its codes to it. -/
def load (state : CodeTable × List ModalGroup) (definition : ModalGroupDefinition) :
    Except LoadError (CodeTable × List ModalGroup) := do
  let (table, groups) := state
  let id : ModalGroupId := ⟨definition.kind, definition.index⟩
  if groups.any fun group => group.id == id then
    throw (.duplicateEntry "modal group" id.text)
  if definition.codes.isEmpty then
    throw (.missingEntry "modal group" id.text)
  let codes ← definition.codes.mapM fun entry => table.expand entry "modal group"
  let table ← codes.flatten.foldlM (CodeTable.assignModalGroup id) table
  return (table, groups ++ [⟨id, definition.meaning, codes.flatten⟩])

/-- Loads all groups, and puts them in the order of their numbers. -/
def loadAll (table : CodeTable) (definitions : List ModalGroupDefinition) :
    Except LoadError (CodeTable × List ModalGroup) := do
  let (table, groups) ← definitions.foldlM load (table, [])
  return (table, groups.mergeSort fun a b => a.id.le b.id)

end ModalGroup

/-! ## Execution order -/

namespace ExecutionGroup

/-- The entry that stands for comments. -/
def commentMarker : String := "COMMENT"

/-- Loads one entry of a group behind the items before it. -/
def loadEntry (index : UInt32) (state : CodeTable × List ExecutionItem) (entry : String) :
    Except LoadError (CodeTable × List ExecutionItem) := do
  let (table, items) := state
  if Text.trim entry.toList = commentMarker.toList then
    return (table, items ++ [.comment])
  let codes ← table.expand entry "execution order"
  let table ← codes.foldlM (CodeTable.assignExecutionGroup index) table
  return (table, items ++ codes.map .code)

/-- Loads one group behind the groups before it, which it must follow in number. -/
def load (state : CodeTable × List ExecutionGroup) (definition : ExecutionGroupDefinition) :
    Except LoadError (CodeTable × List ExecutionGroup) := do
  let (table, groups) := state
  if definition.index.toNat ≠ groups.length + 1 then
    throw (.unexpectedIndex definition.index (groups.length + 1))
  if definition.codes.isEmpty then
    throw (.missingEntry "execution order group" definition.index.toNat.repr)
  let (table, items) ← definition.codes.foldlM (loadEntry definition.index) (table, [])
  return (table, groups ++ [⟨definition.index, definition.meaning, items⟩])

def loadAll (table : CodeTable) (definitions : List ExecutionGroupDefinition) :
    Except LoadError (CodeTable × List ExecutionGroup) :=
  definitions.foldlM load (table, [])

end ExecutionGroup

end GCode
