import GCode.Proofs.Shape

/-!
# Edited lines

The lines that one gets from an empty line, or from one that was read, when one only goes through the
operations that check their fields. Whatever the order of the operations, the checks hold afterwards.
-/

namespace GCode

/-! ## Operations -/

mutual
inductive Item.Built : Item → Prop where
  | word {c v w} : Word.make c v = .ok w → Item.Built (.word w)
  | comment {text : String} {c} : Comment.make text = .ok c → Item.Built (.comment c)
  | setting (i : ParameterIndex) (v : RealValue) : Item.Built (.setting ⟨i, v⟩)
  | setWord {w} (v : RealValue) : Item.Built (.word w) → Item.Built (.word (w.setValue v))
  | setText {c d} {text : String} : Item.Built (.comment c) → c.setText text = .ok d →
      Item.Built (.comment d)
  | setSetting {s} (v : RealValue) : Item.Built (.setting s) → Item.Built (.setting (s.setValue v))
  | taken {line item} : Line.Built line → item ∈ line.items → Item.Built item

inductive Line.Built : Line → Prop where
  | empty : Line.Built {}
  | read {text line} : readLine text = .ok line → Line.Built line
  | setDeleted {line} (deleted : Bool) : Line.Built line → Line.Built (line.setDeleted deleted)
  | toggleDeleted {line} : Line.Built line → Line.Built line.toggleDeleted
  | setNumber {line next number} : Line.Built line → line.setNumber number = .ok next → Line.Built next
  | clearNumber {line} : Line.Built line → Line.Built line.clearNumber
  | setComment {line next comment} : Line.Built line → line.setComment comment = .ok next →
      Line.Built next
  | stripComments {line} : Line.Built line → Line.Built line.stripComments
  | push {line item} : Line.Built line → Item.Built item → Line.Built (line.push item)
  | remove {line place item next} : Line.Built line → line.remove? place = some (item, next) →
      Line.Built next
  | setWordValue {line place next} (v : RealValue) : Line.Built line →
      line.setWordValue? place v = some next → Line.Built next
  | mapValues {line} (f : RealValue → RealValue) : Line.Built line → Line.Built (line.mapValues f)
end

/-! ## Checks -/

def Item.Checked : Item → Prop
  | .word w => w.letter ∈ wordLetters
  | .comment c => '(' ∉ c.text.toList ∧ ')' ∉ c.text.toList
  | .setting _ => True

structure Line.Checked (line : Line) : Prop where
  number : ∀ n ∈ line.number, isLineNumber n.value = true ∧ Number.normalized n.value = n
  comment : ∀ text ∈ line.comment, '(' ∉ text.toList
  items : ∀ item ∈ line.items, item.Checked

theorem Item.Shaped.checked {literal : Number → Prop} {item : Item} (h : item.Shaped literal) :
    item.Checked := by
  cases item with
  | word w => exact h.letter
  | comment c => exact h
  | setting s => trivial

theorem Line.Shaped.checked {literal : Number → Prop} {line : Line} (h : line.Shaped literal) :
    line.Checked where
  number := h.number
  comment := fun text htext => (h.comment text htext).1
  items := fun item hitem => (h.items item hitem).checked

theorem Item.checked_of_make {text : String} {c : Comment} (h : Comment.make text = .ok c) :
    (Item.comment c).Checked := by
  obtain ⟨hl, hr, rfl⟩ := Comment.make_eq_ok_iff.mp h
  exact ⟨hl, hr⟩

/-! ## Steps -/

namespace Line.Checked

variable {line next : Line}

theorem setNumber {number : Option Float} (h : line.Checked) (hset : line.setNumber number = .ok next) :
    next.Checked := by
  cases number with
  | none =>
      cases hset
      exact ⟨by simp, h.comment, h.items⟩
  | some x =>
      rw [Line.setNumber] at hset
      split at hset
      · rename_i hx
        cases hset
        refine ⟨?_, h.comment, h.items⟩
        rintro _ ⟨⟩
        exact ⟨isLineNumber_normalized hx, Number.normalized_value_normalized x⟩
      · cases hset

theorem setComment {comment : Option String} (h : line.Checked)
    (hset : line.setComment comment = .ok next) : next.Checked := by
  cases comment with
  | none =>
      cases hset
      exact ⟨h.number, by simp, h.items⟩
  | some text =>
      obtain ⟨_, hcheck, hnext⟩ := bind_eq_ok_iff.mp hset
      cases hnext
      refine ⟨h.number, ?_, h.items⟩
      rintro _ ⟨⟩
      exact checkComment_eq_ok_iff.mp hcheck '(' List.mem_cons_self

theorem stripComments (h : line.Checked) : line.stripComments.Checked where
  number := h.number
  comment := by simp [Line.stripComments]
  items := fun item hitem => h.items item (List.mem_filter.mp hitem).1

theorem push {item : Item} (h : line.Checked) (hitem : item.Checked) : (line.push item).Checked where
  number := h.number
  comment := h.comment
  items := by
    rw [items_push, List.forall_mem_append]
    exact ⟨h.items, by simpa using hitem⟩

theorem remove {place : ℕ} {item : Item} (h : line.Checked)
    (hremove : line.remove? place = some (item, next)) : next.Checked := by
  obtain ⟨_, _, heq⟩ := Option.map_eq_some_iff.mp hremove
  cases heq
  exact ⟨h.number, h.comment, fun item hitem => h.items item (List.mem_of_mem_eraseIdx hitem)⟩

theorem setWord {v : RealValue} {place : ℕ} {items after : List Item} (h : ∀ item ∈ items, item.Checked)
    (hset : Line.setWord? v place items = some after) : ∀ item ∈ after, item.Checked := by
  fun_induction Line.setWord? v place items generalizing after with
  | case1 => cases hset
  | case2 w items =>
      cases hset
      obtain ⟨hw, hitems⟩ := List.forall_mem_cons.mp h
      exact List.forall_mem_cons.mpr ⟨hw, hitems⟩
  | case3 place w items ih =>
      obtain ⟨hw, hitems⟩ := List.forall_mem_cons.mp h
      obtain ⟨rest, hrest, rfl⟩ := Option.map_eq_some_iff.mp hset
      exact List.forall_mem_cons.mpr ⟨hw, ih hitems hrest⟩
  | case4 place item items _ _ ih =>
      obtain ⟨hitem, hitems⟩ := List.forall_mem_cons.mp h
      obtain ⟨rest, hrest, rfl⟩ := Option.map_eq_some_iff.mp hset
      exact List.forall_mem_cons.mpr ⟨hitem, ih hitems hrest⟩

theorem setWordValue {place : ℕ} {v : RealValue} (h : line.Checked)
    (hset : line.setWordValue? place v = some next) : next.Checked := by
  obtain ⟨items, hitems, rfl⟩ := Option.map_eq_some_iff.mp hset
  exact ⟨h.number, h.comment, setWord h.items hitems⟩

theorem mapValues (f : RealValue → RealValue) (h : line.Checked) : (line.mapValues f).Checked where
  number := h.number
  comment := h.comment
  items := by
    rw [Line.mapValues, List.forall_mem_map]
    intro item hitem
    have hchecked := h.items item hitem
    cases item <;> exact hchecked

end Line.Checked

/-! ## Runs -/

mutual
theorem Item.Built.checked {item : Item} (h : item.Built) : item.Checked := by
  match h with
  | .word hmake =>
      obtain ⟨hletter, rfl⟩ := Word.make_eq_ok_iff.mp hmake
      exact hletter
  | .comment hmake => exact Item.checked_of_make hmake
  | .setting _ _ => trivial
  | .setWord _ hw => exact hw.checked
  | .setText _ hset => exact Item.checked_of_make hset
  | .setSetting _ _ => trivial
  | .taken hline hmem => exact hline.checked.items _ hmem

/-- The checks hold in every line that is edited by the checking operations. -/
theorem Line.Built.checked {line : Line} (h : line.Built) : line.Checked := by
  match h with
  | .empty => exact ⟨by simp, by simp, by simp⟩
  | .read hread => exact (Line.shaped_of_readLine hread).checked
  | .setDeleted _ hline => exact ⟨hline.checked.number, hline.checked.comment, hline.checked.items⟩
  | .toggleDeleted hline => exact ⟨hline.checked.number, hline.checked.comment, hline.checked.items⟩
  | .setNumber hline hset => exact hline.checked.setNumber hset
  | .clearNumber hline => exact ⟨by simp [Line.clearNumber], hline.checked.comment, hline.checked.items⟩
  | .setComment hline hset => exact hline.checked.setComment hset
  | .stripComments hline => exact hline.checked.stripComments
  | .push hline hitem => exact hline.checked.push hitem.checked
  | .remove hline hremove => exact hline.checked.remove hremove
  | .setWordValue _ hline hset => exact hline.checked.setWordValue hset
  | .mapValues f hline => exact hline.checked.mapValues f
end

end GCode
