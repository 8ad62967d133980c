import GCode.Line.Item

/-!
# Lines

The items of a line keep the order in which they were written. An operation that would break a line
is refused and gives no line.
-/

namespace GCode

structure Line where
  /-- The mark for lines that a machine may leave out. -/
  deleted : Bool := false
  number : Option Number := none
  /-- The comment behind `;`, without it. -/
  comment : Option String := none
  items : List Item := []
  deriving BEq, DecidableEq, Inhabited

namespace Line

def setDeleted (line : Line) (deleted : Bool) : Line :=
  { line with deleted }

def toggleDeleted (line : Line) : Line :=
  { line with deleted := !line.deleted }

def isLineNumber (x : Float) : Bool :=
  Binary64.isFinite x && (Binary64.isZero x || !Binary64.isNegative x)

/-- A whole number is stored as an integer, whatever its spelling was. -/
def setNumber (line : Line) : Option Float → Except FieldError Line
  | none => .ok { line with number := none }
  | some x =>
    if isLineNumber x then
      .ok { line with number := some (Number.normalized x) }
    else
      .error (.invalidLineNumber x)

def clearNumber (line : Line) : Line :=
  { line with number := none }

def setComment (line : Line) : Option String → Except FieldError Line
  | none => .ok { line with comment := none }
  | some text => do
    checkComment ['('] text
    return { line with comment := some text }

/-- The line without its comments, inline ones included. -/
def stripComments (line : Line) : Line :=
  { line with comment := none, items := line.items.filter fun item => !item.isComment }

def push (line : Line) (item : Item) : Line :=
  { line with items := line.items ++ [item] }

/-- The item at a place, and the line without it. -/
def remove? (line : Line) (place : Nat) : Option (Item × Line) :=
  line.items[place]?.map fun item => (item, { line with items := line.items.eraseIdx place })

def words (line : Line) : List Word :=
  line.items.filterMap Item.word?

def comments (line : Line) : List Comment :=
  line.items.filterMap Item.comment?

def settings (line : Line) : List Setting :=
  line.items.filterMap Item.setting?

@[simp] theorem items_push (line : Line) (item : Item) :
    (line.push item).items = line.items ++ [item] := rfl

@[simp] theorem words_push (line : Line) (item : Item) :
    (line.push item).words = line.words ++ item.word?.toList := by
  cases item <;> simp [words, Item.word?]

@[simp] theorem comments_push (line : Line) (item : Item) :
    (line.push item).comments = line.comments ++ item.comment?.toList := by
  cases item <;> simp [comments, Item.comment?]

@[simp] theorem comments_stripComments (line : Line) : line.stripComments.comments = [] := by
  simp only [comments, stripComments, List.filterMap_eq_nil_iff, List.mem_filter]
  intro item h
  cases item <;> simp_all [Item.comment?, Item.isComment]

/-- Changes the value of every word. -/
def mapValues (f : RealValue → RealValue) (line : Line) : Line :=
  { line with
    items := line.items.map fun
      | .word w => .word (w.setValue (f w.value))
      | item => item }

/-- Changes the value of the word at a place among the words. -/
def setWord? (value : RealValue) : Nat → List Item → Option (List Item)
  | _, [] => none
  | 0, .word w :: items => some (.word (w.setValue value) :: items)
  | place + 1, .word w :: items => (setWord? value place items).map (.word w :: ·)
  | place, item :: items => (setWord? value place items).map (item :: ·)

def setWordValue? (line : Line) (place : Nat) (value : RealValue) : Option Line :=
  (setWord? value place line.items).map fun items => { line with items }

/-- The parts of a line in the order in which they are written. -/
def parts (line : Line) : List String :=
  (if line.deleted then ["/"] else [])
    ++ (line.number.map fun n => "N" ++ n.text).toList
    ++ line.items.map Item.text
    ++ match line.comment with
      | none => []
      | some text => if text.isEmpty then [] else ["; " ++ text]

def text (line : Line) : String :=
  " ".intercalate line.parts

end Line

end GCode
