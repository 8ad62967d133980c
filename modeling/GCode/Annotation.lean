import GCode.Flavor.Basic
import GCode.Line.Basic

/-!
# Annotations and plans

What the tables of a flavor say about the words of a line, and in which order its items take effect.
-/

namespace GCode

/-- What the tables say about one word. -/
structure Annotation where
  word : Word
  entry : Option CodeEntry
  letter : Option Letter
  modalGroup : Option ModalGroup
  executionGroup : Option ExecutionGroup
  deriving Inhabited

/-- The meaning of the code, or else of the letter. -/
def Annotation.meaning? (found : Annotation) : Option String :=
  match found.entry with
  | some entry => some entry.meaning
  | none => found.letter.map Letter.meaning

/-- An item that takes effect, with the group that it belongs to. -/
structure PlannedItem where
  group : ExecutionGroup
  item : Item
  deriving Inhabited

namespace Flavor

def annotateWord (flavor : Flavor) (word : Word) : Annotation :=
  let entry := flavor.entryOf word
  { word, entry
    letter := flavor.letter? word.letter
    modalGroup := entry.bind flavor.modalGroupOf
    executionGroup := entry.bind flavor.executionGroupOf }

/-- An annotation for every word, in the order of the line. -/
def annotate (flavor : Flavor) (line : Line) : List Annotation :=
  line.words.map flavor.annotateWord

/-- The group that comments belong to. -/
def commentGroup? (flavor : Flavor) : Option ExecutionGroup :=
  flavor.commentIndex?.bind flavor.executionGroup?

/-- The group that an item belongs to; settings and words that are only arguments belong to none. -/
def groupOf (flavor : Flavor) : Item → Option ExecutionGroup
  | .comment _ => flavor.commentGroup?
  | .word word => (flavor.entryOf word).bind flavor.executionGroupOf
  | .setting _ => none

/-- The items that take effect, in the order in which they do. Items of one group keep the order of the
line. -/
def plan (flavor : Flavor) (line : Line) : List PlannedItem :=
  (line.items.filterMap fun item => (flavor.groupOf item).map fun group => ⟨group, item⟩).mergeSort
    fun a b => a.group.index ≤ b.group.index

end Flavor

end GCode
