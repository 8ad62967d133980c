import GCode.Proofs.Editing

/-!
# Runs of edits

A session edits one line and the items that are in no line. An edit is a program that changes them in place, and
each one checks what it is given before it writes. So a refused edit leaves the session as it was, and no run of
edits breaks a line.
-/

namespace GCode

/-! ## Edits -/

structure Session where
  line : Line := {}
  /-- The items that are in no line. -/
  hand : List Item := []

/-- Items are named by their place, in the line or in the hand. The builders `with…` work on a copy. -/
inductive Edit where
  | new
  | read (text : String)
  | setDeleted (deleted : Bool)
  | withDeleted (deleted : Bool)
  | toggleDeleted
  | setNumber (number : Option Float)
  | withNumber (number : Float)
  | clearNumber
  | setComment (comment : Option String)
  | withComment (comment : String)
  | stripComments
  | mapValues (f : RealValue → RealValue)
  | setWordValue (place : Nat) (value : RealValue)
  | makeWord (letter : Char) (value : RealValue)
  | makeComment (text : String)
  | makeSetting (index : ParameterIndex) (value : RealValue)
  | setValue (place : Nat) (value : RealValue)
  | setText (place : Nat) (text : String)
  /-- Puts an item behind the items of the line. -/
  | push (place : Nat)
  /-- Takes an item out of the line. -/
  | remove (place : Nat)

inductive EditError where
  | read (e : ReadError)
  | field (e : FieldError)

def Item.setValue (value : RealValue) : Item → Item
  | .word w => .word (w.setValue value)
  | .setting s => .setting (s.setValue value)
  | .comment c => .comment c

/-- A program that changes the session in place. What it has changed before it fails stays changed. -/
abbrev Editing := ExceptT EditError (StateM Session)

namespace Editing

/-- Reads a text in place of the line. -/
def read (text : String) : Editing Unit := do
  let line ← ofExcept ((readLine text).mapError .read)
  modify fun s => { s with line }

def changeLine (f : Line → Line) : Editing Unit :=
  modify fun s => { s with line := f s.line }

def setNumber (number : Option Float) : Editing Unit := do
  let stored ← match number with
    | none => pure none
    | some x =>
      if Line.isLineNumber x then
        pure (some (Number.normalized x))
      else
        throw (.field (.invalidLineNumber x))
  modify fun s => { s with line := { s.line with number := stored } }

def check (forbidden : List Char) (text : String) : Editing Unit :=
  ofExcept ((checkComment forbidden text).mapError .field)

def setComment (comment : Option String) : Editing Unit := do
  if let some text := comment then
    check ['('] text
  modify fun s => { s with line := { s.line with comment } }

def setText (place : Nat) (text : String) : Editing Unit := do
  let s ← get
  match s.hand[place]? with
  | some (.comment _) =>
    check ['(', ')'] text
    modify fun s => { s with hand := s.hand.set place (.comment ⟨text⟩) }
  | _ => return

/-- Takes a new item into the hand. -/
def take (item : Except FieldError Item) : Editing Unit := do
  let item ← ofExcept (item.mapError .field)
  modify fun s => { s with hand := s.hand ++ [item] }

end Editing

def Edit.program : Edit → Editing Unit
  | new => .changeLine fun _ => {}
  | read text => .read text
  | setDeleted deleted | withDeleted deleted => .changeLine fun line => line.setDeleted deleted
  | toggleDeleted => .changeLine Line.toggleDeleted
  | setNumber number => .setNumber number
  | withNumber number => .setNumber (some number)
  | clearNumber => .changeLine Line.clearNumber
  | setComment comment => .setComment comment
  | withComment comment => .setComment (some comment)
  | stripComments => .changeLine Line.stripComments
  | mapValues f => .changeLine (Line.mapValues f)
  | setWordValue place value => .changeLine fun line => (line.setWordValue? place value).getD line
  | makeWord letter value => .take ((Word.make letter value).map .word)
  | makeComment text => .take ((Comment.make text).map .comment)
  | makeSetting index value => .take (.ok (.setting ⟨index, value⟩))
  | setValue place value => modify fun s =>
    match s.hand[place]? with
    | some item => { s with hand := s.hand.set place (item.setValue value) }
    | none => s
  | setText place text => .setText place text
  | push place => modify fun s =>
    match s.hand[place]? with
    | some item => ⟨s.line.push item, s.hand.eraseIdx place⟩
    | none => s
  | remove place => modify fun s =>
    match s.line.remove? place with
    | some (item, line) => ⟨line, s.hand ++ [item]⟩
    | none => s

namespace Session

/-- The outcome of a program, and the session that it leaves. It leaves one also when it fails. -/
def execute (s : Session) (program : Editing Unit) : Except EditError Unit × Session :=
  (program.run.run s).run

def edit (s : Session) (e : Edit) : Except EditError Unit × Session :=
  s.execute e.program

/-- Makes one edit after the other, whatever comes of each. -/
def run (s : Session) (edits : List Edit) : Session :=
  edits.foldl (fun s e => (s.edit e).2) s

/-- What comes of a checked operation: what it gives is put into the session, or the session stays as it is. -/
def settle {α : Type} (s : Session) (put : α → Session) : Except EditError α → Except EditError Unit × Session
  | .ok a => (.ok (), put a)
  | .error e => (.error e, s)

variable {α : Type} {s next : Session} {put : α → Session} {checked : Except EditError α}

theorem settle_eq_error_iff {e : EditError} :
    s.settle put checked = (.error e, next) ↔ checked = .error e ∧ next = s := by
  cases checked with
  | ok a => exact iff_of_false nofun nofun
  | error d =>
      rw [settle, Prod.mk.injEq, eq_comm (a := s)]
      simp

/-! ### Programs -/

theorem execute_modify (s : Session) (f : Session → Session) : s.execute (modify f) = (.ok (), f s) := rfl

theorem execute_changeLine (s : Session) (f : Line → Line) :
    s.execute (.changeLine f) = (.ok (), { s with line := f s.line }) := rfl

theorem execute_read (s : Session) (text : String) :
    s.execute (.read text) = s.settle (fun line => { s with line }) ((readLine text).mapError .read) := by
  unfold Editing.read
  cases (readLine text).mapError EditError.read <;> rfl

theorem execute_take (s : Session) (item : Except FieldError Item) :
    s.execute (.take item) = s.settle (fun item => { s with hand := s.hand ++ [item] }) (item.mapError .field) := by
  unfold Editing.take
  cases item.mapError EditError.field <;> rfl

/-- The number is written only if it is a line number. -/
theorem execute_setNumber (s : Session) (number : Option Float) :
    s.execute (.setNumber number) =
      s.settle (fun line => { s with line }) ((s.line.setNumber number).mapError .field) := by
  cases number with
  | none => rfl
  | some x =>
      simp only [Editing.setNumber, Line.setNumber]
      cases Line.isLineNumber x <;> rfl

/-- The comment is written only if it passes its check. -/
theorem execute_setComment (s : Session) (comment : Option String) :
    s.execute (.setComment comment) =
      s.settle (fun line => { s with line }) ((s.line.setComment comment).mapError .field) := by
  cases comment with
  | none => rfl
  | some text =>
      simp only [Editing.setComment, Editing.check, Line.setComment]
      cases checkComment ['('] text <;> rfl

theorem execute_get_bind (s : Session) (program : Session → Editing Unit) :
    s.execute (get >>= program) = s.execute (program s) := rfl

/-- The text is written only if it passes its check. -/
theorem execute_setText {place : Nat} {c : Comment} (h : s.hand[place]? = some (.comment c)) (text : String) :
    s.execute (.setText place text) =
      s.settle (fun d => { s with hand := s.hand.set place (.comment d) }) ((c.setText text).mapError .field) := by
  rw [Editing.setText, execute_get_bind]
  simp only [h, Editing.check, Comment.setText, Comment.make]
  cases checkComment ['(', ')'] text <;> rfl

theorem execute_setText_of_ne {place : Nat} (h : ∀ c, s.hand[place]? ≠ some (.comment c)) (text : String) :
    s.execute (.setText place text) = (.ok (), s) := by
  rw [Editing.setText, execute_get_bind]
  split
  · rename_i c hc
    exact (h c hc).elim
  · rfl

end Session

/-! ## What a run keeps -/

/-- Only the operations that check their fields have made the line and the items. -/
structure Session.Built (s : Session) : Prop where
  line : s.line.Built
  hand : ∀ item ∈ s.hand, item.Built

theorem Item.Built.setValue {item : Item} (h : item.Built) (value : RealValue) : (item.setValue value).Built := by
  cases item with
  | word w => exact .setWord value h
  | setting s => exact .setSetting value h
  | comment c => exact h

namespace Session

variable {α : Type} {s : Session}

theorem Built.settle {put : α → Session} {checked : Except EditError α} (h : s.Built)
    (hput : ∀ a, checked = .ok a → (put a).Built) : (s.settle put checked).2.Built := by
  cases checked with
  | ok a => exact hput a rfl
  | error e => exact h

theorem Built.changeLine {f : Line → Line} (h : s.Built) (hline : (f s.line).Built) :
    (s.execute (.changeLine f)).2.Built := by
  rw [execute_changeLine]
  exact ⟨hline, h.hand⟩

theorem Built.snoc {item : Item} (h : s.Built) (hitem : item.Built) : ∀ i ∈ s.hand ++ [item], i.Built := by
  rw [List.forall_mem_append, List.forall_mem_singleton]
  exact ⟨h.hand, hitem⟩

theorem Built.set {item : Item} (h : s.Built) (place : ℕ) (hitem : item.Built) :
    ∀ i ∈ s.hand.set place item, i.Built := by
  intro i hi
  rcases List.mem_or_eq_of_mem_set hi with hmem | rfl
  · exact h.hand i hmem
  · exact hitem

theorem Built.read (h : s.Built) (text : String) : (s.execute (.read text)).2.Built := by
  rw [execute_read]
  exact h.settle fun line hline => ⟨.read (mapError_eq_ok_iff.mp hline), h.hand⟩

theorem Built.setNumber (h : s.Built) (number : Option Float) : (s.execute (.setNumber number)).2.Built := by
  rw [execute_setNumber]
  exact h.settle fun line hline => ⟨h.line.setNumber (mapError_eq_ok_iff.mp hline), h.hand⟩

theorem Built.setComment (h : s.Built) (comment : Option String) :
    (s.execute (.setComment comment)).2.Built := by
  rw [execute_setComment]
  exact h.settle fun line hline => ⟨h.line.setComment (mapError_eq_ok_iff.mp hline), h.hand⟩

theorem Built.take {item : Except FieldError Item} (h : s.Built) (hitem : ∀ i, item = .ok i → i.Built) :
    (s.execute (.take item)).2.Built := by
  rw [execute_take]
  exact h.settle fun i hi => ⟨h.line, h.snoc (hitem i (mapError_eq_ok_iff.mp hi))⟩

theorem Built.setText (h : s.Built) (place : ℕ) (text : String) :
    (s.execute (.setText place text)).2.Built := by
  by_cases hplace : ∃ c, s.hand[place]? = some (.comment c)
  · obtain ⟨c, hc⟩ := hplace
    have hcomment := h.hand _ (List.mem_of_getElem? hc)
    rw [execute_setText hc]
    exact h.settle fun d hd => ⟨h.line, h.set place (.setText hcomment (mapError_eq_ok_iff.mp hd))⟩
  · rw [execute_setText_of_ne (not_exists.mp hplace)]
    exact h

/-- An edit keeps what the operations promise, also when it is refused. -/
theorem Built.edit (h : s.Built) (e : Edit) : (s.edit e).2.Built := by
  unfold Session.edit Edit.program
  cases e with
  | new => exact h.changeLine .empty
  | read text => exact h.read text
  | setDeleted deleted | withDeleted deleted => exact h.changeLine (h.line.setDeleted deleted)
  | toggleDeleted => exact h.changeLine h.line.toggleDeleted
  | setNumber number => exact h.setNumber number
  | withNumber number => exact h.setNumber (some number)
  | clearNumber => exact h.changeLine h.line.clearNumber
  | setComment comment => exact h.setComment comment
  | withComment comment => exact h.setComment (some comment)
  | stripComments => exact h.changeLine h.line.stripComments
  | mapValues f => exact h.changeLine (h.line.mapValues f)
  | setWordValue place value =>
      refine h.changeLine ?_
      cases hset : s.line.setWordValue? place value with
      | none => exact h.line
      | some line => exact h.line.setWordValue value hset
  | makeWord letter value =>
      refine h.take fun item hitem => ?_
      obtain ⟨w, hw, rfl⟩ := map_eq_ok_iff.mp hitem
      exact .word hw
  | makeComment text =>
      refine h.take fun item hitem => ?_
      obtain ⟨c, hc, rfl⟩ := map_eq_ok_iff.mp hitem
      exact .comment hc
  | makeSetting index value =>
      refine h.take ?_
      rintro _ ⟨⟩
      exact .setting index value
  | setValue place value =>
      rw [execute_modify]
      split
      · rename_i item hitem
        exact ⟨h.line, h.set place ((h.hand item (List.mem_of_getElem? hitem)).setValue value)⟩
      · exact h
  | setText place text => exact h.setText place text
  | push place =>
      rw [execute_modify]
      split
      · rename_i item hitem
        refine ⟨h.line.push (h.hand item (List.mem_of_getElem? hitem)), fun item hmem => ?_⟩
        exact h.hand item (List.mem_of_mem_eraseIdx hmem)
      · exact h
  | remove place =>
      rw [execute_modify]
      split
      · rename_i item line hremove
        obtain ⟨taken, htaken, heq⟩ := Option.map_eq_some_iff.mp hremove
        cases heq
        exact ⟨h.line.remove hremove, h.snoc (.taken h.line (List.mem_of_getElem? htaken))⟩
      · exact h

theorem run_append (s : Session) (before after : List Edit) : s.run (before ++ after) = (s.run before).run after :=
  List.foldl_append

theorem Built.run (h : s.Built) (edits : List Edit) : (s.run edits).Built := by
  induction edits generalizing s with
  | nil => exact h
  | cons e edits ih => exact ih (h.edit e)

theorem built_start : ({} : Session).Built :=
  ⟨.empty, by simp⟩

end Session

/-! ## Refused edits -/

/-- Why an edit is refused. -/
inductive Session.Refused (s : Session) : Edit → EditError → Prop where
  | read {text e} : readLine text = .error e → Refused s (.read text) (.read e)
  /-- No line has an infinite number, a negative one or NaN. -/
  | setNumber {x} : Binary64.isFinite x = false ∨ Binary64.isNegative x = true ∧ Binary64.isZero x = false →
      Refused s (.setNumber (some x)) (.field (.invalidLineNumber x))
  | withNumber {x error} : Refused s (.setNumber (some x)) error → Refused s (.withNumber x) error
  | setComment {text} : '(' ∈ text.toList →
      Refused s (.setComment (some text)) (.field (.commentContainsParenthesis text))
  | withComment {text error} : Refused s (.setComment (some text)) error → Refused s (.withComment text) error
  | makeWord {c v} : c.toUpper ∉ wordLetters → Refused s (.makeWord c v) (.field (.invalidLetter c.toUpper))
  | makeComment {text} : '(' ∈ text.toList ∨ ')' ∈ text.toList →
      Refused s (.makeComment text) (.field (.commentContainsParenthesis text))
  | setText {place c text} : s.hand[place]? = some (.comment c) → '(' ∈ text.toList ∨ ')' ∈ text.toList →
      Refused s (.setText place text) (.field (.commentContainsParenthesis text))

theorem Line.isLineNumber_eq_false_iff {x : Float} :
    isLineNumber x = false ↔
      Binary64.isFinite x = false ∨ Binary64.isNegative x = true ∧ Binary64.isZero x = false := by
  simp only [isLineNumber, Bool.and_eq_false_iff, Bool.or_eq_false_iff, Bool.not_eq_false', and_comm]

namespace Session

variable {s next : Session} {error : EditError}

theorem settle_mapError_eq_error_iff {α ε : Type} {put : α → Session} {checked : Except ε α} {f : ε → EditError} :
    s.settle put (checked.mapError f) = (.error error, next) ↔
      (∃ e, checked = .error e ∧ f e = error) ∧ next = s :=
  settle_eq_error_iff.trans (and_congr_left' mapError_eq_error_iff)

theorem read_eq_error_iff {text : String} :
    s.execute (.read text) = (.error error, next) ↔ (∃ e, readLine text = .error e ∧ .read e = error) ∧ next = s := by
  rw [execute_read, settle_mapError_eq_error_iff]

theorem setNumber_eq_error_iff {x : Float} :
    s.execute (.setNumber (some x)) = (.error error, next) ↔
      (Line.isLineNumber x = false ∧ .field (.invalidLineNumber x) = error) ∧ next = s := by
  rw [execute_setNumber, settle_mapError_eq_error_iff]
  simp [Line.setNumber_eq_error_iff]

theorem setComment_eq_error_iff {text : String} :
    s.execute (.setComment (some text)) = (.error error, next) ↔
      ('(' ∈ text.toList ∧ .field (.commentContainsParenthesis text) = error) ∧ next = s := by
  rw [execute_setComment, settle_mapError_eq_error_iff]
  simp [Line.setComment_eq_error_iff]

theorem take_eq_error_iff {item : Except FieldError Item} :
    s.execute (.take item) = (.error error, next) ↔ (∃ e, item = .error e ∧ .field e = error) ∧ next = s := by
  rw [execute_take, settle_mapError_eq_error_iff]

theorem makeWord_eq_error_iff {c : Char} {v : RealValue} :
    s.execute (.take ((Word.make c v).map .word)) = (.error error, next) ↔
      (c.toUpper ∉ wordLetters ∧ .field (.invalidLetter c.toUpper) = error) ∧ next = s := by
  rw [take_eq_error_iff]
  simp [map_eq_error_iff, Word.make_eq_error_iff]

theorem makeComment_eq_error_iff {text : String} :
    s.execute (.take ((Comment.make text).map .comment)) = (.error error, next) ↔
      (('(' ∈ text.toList ∨ ')' ∈ text.toList) ∧ .field (.commentContainsParenthesis text) = error) ∧
        next = s := by
  rw [take_eq_error_iff]
  simp [map_eq_error_iff, Comment.make_eq_error_iff]

theorem setText_eq_error_iff {place : ℕ} {text : String} :
    s.execute (.setText place text) = (.error error, next) ↔
      ((∃ c, s.hand[place]? = some (.comment c)) ∧ ('(' ∈ text.toList ∨ ')' ∈ text.toList) ∧
        .field (.commentContainsParenthesis text) = error) ∧ next = s := by
  by_cases hplace : ∃ c, s.hand[place]? = some (.comment c)
  · obtain ⟨c, hc⟩ := hplace
    rw [execute_setText hc, settle_mapError_eq_error_iff]
    simp [hc, Comment.setText, Comment.make_eq_error_iff]
  · rw [execute_setText_of_ne (not_exists.mp hplace)]
    exact iff_of_false nofun fun h => hplace h.1.1

theorem refused_setNumber {x : Float} (h : s.execute (.setNumber (some x)) = (.error error, next)) :
    s.Refused (.setNumber (some x)) error ∧ next = s := by
  obtain ⟨⟨hx, rfl⟩, hnext⟩ := setNumber_eq_error_iff.mp h
  exact ⟨.setNumber (Line.isLineNumber_eq_false_iff.mp hx), hnext⟩

theorem refused_setComment {text : String}
    (h : s.execute (.setComment (some text)) = (.error error, next)) :
    s.Refused (.setComment (some text)) error ∧ next = s := by
  obtain ⟨⟨htext, rfl⟩, hnext⟩ := setComment_eq_error_iff.mp h
  exact ⟨.setComment htext, hnext⟩

theorem refused_of_edit {e : Edit} (h : s.edit e = (.error error, next)) : s.Refused e error ∧ next = s := by
  unfold Session.edit Edit.program at h
  cases e with
  | read text =>
      obtain ⟨⟨e, he, rfl⟩, hnext⟩ := read_eq_error_iff.mp h
      exact ⟨.read he, hnext⟩
  | setNumber number =>
      cases number with
      | none => cases h
      | some x => exact refused_setNumber h
  | withNumber x => exact (refused_setNumber h).imp_left .withNumber
  | setComment comment =>
      cases comment with
      | none => cases h
      | some text => exact refused_setComment h
  | withComment text => exact (refused_setComment h).imp_left .withComment
  | makeWord letter value =>
      obtain ⟨⟨hletter, rfl⟩, hnext⟩ := makeWord_eq_error_iff.mp h
      exact ⟨.makeWord hletter, hnext⟩
  | makeComment text =>
      obtain ⟨⟨htext, rfl⟩, hnext⟩ := makeComment_eq_error_iff.mp h
      exact ⟨.makeComment htext, hnext⟩
  | setText place text =>
      obtain ⟨⟨⟨c, hc⟩, htext, rfl⟩, hnext⟩ := setText_eq_error_iff.mp h
      exact ⟨.setText hc htext, hnext⟩
  | _ => cases h

theorem Refused.edit {e : Edit} (h : s.Refused e error) : s.edit e = (.error error, s) := by
  induction h with
  | read he => exact read_eq_error_iff.mpr ⟨⟨_, he, rfl⟩, rfl⟩
  | setNumber hx => exact setNumber_eq_error_iff.mpr ⟨⟨Line.isLineNumber_eq_false_iff.mpr hx, rfl⟩, rfl⟩
  | withNumber _ ih => exact ih
  | setComment htext => exact setComment_eq_error_iff.mpr ⟨⟨htext, rfl⟩, rfl⟩
  | withComment _ ih => exact ih
  | makeWord hletter => exact makeWord_eq_error_iff.mpr ⟨⟨hletter, rfl⟩, rfl⟩
  | makeComment htext => exact makeComment_eq_error_iff.mpr ⟨⟨htext, rfl⟩, rfl⟩
  | setText hc htext => exact setText_eq_error_iff.mpr ⟨⟨⟨_, hc⟩, htext, rfl⟩, rfl⟩

/-- An edit is refused only for what it is given, and it has changed nothing. -/
theorem edit_eq_error_iff {e : Edit} : s.edit e = (.error error, next) ↔ s.Refused e error ∧ next = s := by
  constructor
  · exact refused_of_edit
  · rintro ⟨hrefused, rfl⟩
    exact hrefused.edit

end Session

/-! ## Sound lines -/

theorem Line.Checked.isNegative {line : Line} (h : line.Checked) :
    ∀ n ∈ line.number, Binary64.isNegative n.value = false := by
  intro n hn
  obtain ⟨hnumber, hnormalized⟩ := h.number n hn
  cases hzero : Binary64.isZero n.value with
  | true =>
      -- a zero is stored without a sign
      rw [Number.normalized_of_isZero hzero] at hnormalized
      rw [← hnormalized]
      exact Binary64.isNegative_ofInt 0
  | false =>
      simp only [Line.isLineNumber, hzero, Bool.false_or, Bool.and_eq_true, Bool.not_eq_true'] at hnumber
      exact hnumber.2

/-- What every line is to meet, whatever has been done to it. -/
structure Line.Sound (line : Line) : Prop where
  words : ∀ w ∈ line.words, w.letter ∈ wordLetters
  comments : ∀ c ∈ line.comments, '(' ∉ c.text.toList ∧ ')' ∉ c.text.toList
  comment : ∀ text ∈ line.comment, '(' ∉ text.toList
  number : ∀ n ∈ line.number, Binary64.isFinite n.value = true ∧ Binary64.isNegative n.value = false ∧
    Number.normalized n.value = n

theorem Line.Checked.sound {line : Line} (h : line.Checked) : line.Sound where
  words := by
    intro w hw
    obtain ⟨item, hitem, hword⟩ := List.mem_filterMap.mp hw
    cases item with
    | word _ =>
        cases hword
        exact h.items _ hitem
    | _ => cases hword
  comments := by
    intro c hc
    obtain ⟨item, hitem, hcomment⟩ := List.mem_filterMap.mp hc
    cases item with
    | comment _ =>
        cases hcomment
        exact h.items _ hitem
    | _ => cases hcomment
  comment := h.comment
  number := by
    intro n hn
    obtain ⟨hnumber, hnormalized⟩ := h.number n hn
    rw [Line.isLineNumber, Bool.and_eq_true] at hnumber
    exact ⟨hnumber.1, h.isNegative n hn, hnormalized⟩

/-- The line without its comments. All else of it stays, in the same order. -/
structure Line.Stripped (line next : Line) : Prop where
  deleted : next.deleted = line.deleted
  number : next.number = line.number
  comment : next.comment = none
  items : next.items = line.items.filter fun item => !item.isComment

/-- No run of edits breaks the line or an item, whether the edits are accepted or not. An edit is refused only
for what it is given, and then it leaves the line and the items as they were. The comments of a line can be
taken off without a change of anything else. -/
theorem Session.run_sound (edits : List Edit) :
    (Session.run {} edits).line.Sound ∧ (∀ item ∈ (Session.run {} edits).hand, item.Checked) ∧
      (∀ edit error next, (Session.run {} edits).edit edit = (.error error, next) ↔
        (Session.run {} edits).Refused edit error ∧ next = Session.run {} edits) ∧
      Line.Stripped (Session.run {} edits).line (Session.run {} (edits ++ [.stripComments])).line := by
  have hbuilt := Session.built_start.run edits
  refine ⟨hbuilt.line.checked.sound, fun item hitem => (hbuilt.hand item hitem).checked,
    fun _ _ _ => Session.edit_eq_error_iff, ?_⟩
  rw [Session.run_append]
  exact ⟨rfl, rfl, rfl, rfl⟩

end GCode
