import GCode.Proofs.Printing.Collision
import GCode.Proofs.Printing.Value

/-!
# Printed items

The text of an item scans as tokens from which the grammar derives the item. It does so between any two
spaces, so every item of a line scans for itself.
-/

namespace GCode

variable {literal : Number → Prop}

/-! ## Tokens -/

def Item.tokens : Item → List Token
  | .word w => .letter w.letter :: w.value.tokens
  | .comment c => [.comment c.text]
  | .setting s => .hash :: (s.index.tokens ++ .equals :: s.value.tokens)

theorem Item.derives {item : Item} (h : item.Shaped literal) : Grammar.Segment item.tokens item := by
  cases item with
  | word w =>
      obtain ⟨letter, value⟩ := w
      obtain ⟨hletter, hvalue⟩ := h
      have hupper := toUpper_of_mem_wordLetters hletter
      have hword := Grammar.Word.mk (hupper.symm ▸ hletter) (RealValue.derives hvalue)
      rw [hupper] at hword
      exact .word hword
  | comment c => exact .comment h.1 h.2
  | setting s => exact .setting (ParameterIndex.derives h.index) (RealValue.derives h.value)

/-! ## Ends of lines -/

theorem Operator.any_isLineEnd (op : Operator) : op.keyword.toList.any Text.isLineEnd = false := by
  revert op
  exact of_longestFirst (by decide)

theorem Number.any_isLineEnd (n : Number) : n.text.toList.any Text.isLineEnd = false := by
  by_cases h : n.Finite
  · rw [toList_text h, List.any_eq_false]
    intro c hc
    rw [Bool.not_eq_true]
    rcases Numeral.mem_spelling n.wellFormed_numeral c hc with hdigit | rfl | rfl | rfl
    · exact Text.isLineEnd_of_test hdigit rfl rfl
    · rfl
    · rfl
    · rfl
  · cases n with
    | integer n => exact absurd trivial h
    | decimal x =>
        have hfinite : Binary64.isFinite x = false := by simpa [Finite] using h
        have hwhole : Binary64.whole? x = none := by simp [Binary64.whole?, hfinite]
        simp only [text, hwhole, Binary64.text, hfinite, Bool.false_eq_true, ↓reduceIte, Binary64.signed]
        split
        · decide
        · split <;> decide

mutual
/-- The names of parameters in a value, at any depth. -/
def RealValue.names : RealValue → List String
  | .literal _ => []
  | .parameter i => i.names
  | .unary _ arg => arg.names
  | .binary _ left right => left.names ++ right.names

def ParameterIndex.names : ParameterIndex → List String
  | .number _ => []
  | .named name => [name]
  | .expression v => v.names
end

/-- The name of a parameter passes its check. -/
def ParameterIndex.IsName (name : String) : Prop :=
  ofName name = .ok (.named name)

instance (name : String) : Decidable (ParameterIndex.IsName name) :=
  inferInstanceAs (Decidable (ParameterIndex.ofName name = .ok (.named name)))

theorem ParameterIndex.isName_iff {name : String} :
    IsName name ↔ name ≠ "" ∧ ∀ c ∈ name.toList, isNameChar c = true := by
  simp [IsName, ofName_eq_ok_iff]

theorem ParameterIndex.IsName.any_isLineEnd {name : String} (h : IsName name) :
    name.toList.any Text.isLineEnd = false := by
  rw [List.any_eq_false]
  intro c hc
  have hchar := (isName_iff.mp h).2 c hc
  simp only [isNameChar, Bool.or_eq_true, decide_eq_true_eq] at hchar
  rcases hchar with halnum | rfl
  · simp [Text.isLineEnd_of_test halnum rfl rfl]
  · decide

mutual
theorem RealValue.Shaped.isName {v : RealValue} {divided : Bool} (h : v.Shaped literal divided) :
    ∀ name ∈ v.names, ParameterIndex.IsName name := by
  match v with
  | .literal _ => simp [RealValue.names]
  | .parameter i =>
      simp only [RealValue.Shaped] at h
      rw [RealValue.names]
      exact h.isName
  | .unary _ arg =>
      simp only [RealValue.Shaped] at h
      rw [RealValue.names]
      exact h.2.isName
  | .binary _ left right =>
      simp only [RealValue.Shaped] at h
      rw [RealValue.names, List.forall_mem_append]
      exact ⟨h.1.isName, h.2.isName⟩

theorem ParameterIndex.Shaped.isName {i : ParameterIndex} (h : i.Shaped literal) :
    ∀ name ∈ i.names, ParameterIndex.IsName name := by
  match i with
  | .number _ => simp [ParameterIndex.names]
  | .named name =>
      simp only [ParameterIndex.Shaped] at h
      simpa [ParameterIndex.names] using ParameterIndex.isName_iff.mpr h
  | .expression v =>
      simp only [ParameterIndex.Shaped] at h
      rw [ParameterIndex.names]
      exact h.2.isName
end

mutual
/-- The text of a value is on one line. -/
theorem RealValue.any_isLineEnd {v : RealValue} (h : ∀ name ∈ v.names, ParameterIndex.IsName name) :
    v.text.toList.any Text.isLineEnd = false := by
  match v with
  | .literal n =>
      rw [RealValue.text]
      exact n.any_isLineEnd
  | .parameter i =>
      rw [RealValue.names] at h
      have hindex := ParameterIndex.any_isLineEnd h
      simp [RealValue.text, hindex, Text.isLineEnd]
  | .unary op arg =>
      rw [RealValue.names] at h
      have harg := RealValue.any_isLineEnd h
      have hop := (Operator.unary op).any_isLineEnd
      simp only [Operator.keyword] at hop
      simp [RealValue.text, harg, hop, Text.isLineEnd]
  | .binary op left right =>
      rw [RealValue.names, List.forall_mem_append] at h
      have hleft := RealValue.any_isLineEnd h.1
      have hright := RealValue.any_isLineEnd h.2
      have hop := (Operator.binary op).any_isLineEnd
      simp only [Operator.keyword] at hop
      rw [RealValue.text]
      split <;> simp [hleft, hright, hop, Text.isLineEnd]

theorem ParameterIndex.any_isLineEnd {i : ParameterIndex}
    (h : ∀ name ∈ i.names, ParameterIndex.IsName name) : i.text.toList.any Text.isLineEnd = false := by
  match i with
  | .number n =>
      rw [ParameterIndex.text, ← Number.text_ofIndex]
      exact (Number.ofIndex n).any_isLineEnd
  | .named name =>
      have hname := (h name (by simp [ParameterIndex.names])).any_isLineEnd
      simp [ParameterIndex.text, hname, Text.isLineEnd]
  | .expression v =>
      rw [ParameterIndex.names] at h
      rw [ParameterIndex.text]
      exact RealValue.any_isLineEnd h
end

/-- The names of parameters in a word or a setting. -/
def Item.names : Item → List String
  | .word w => w.value.names
  | .comment _ => []
  | .setting s => s.index.names ++ s.value.names

theorem Item.Shaped.isName {item : Item} (h : item.Shaped literal) :
    ∀ name ∈ item.names, ParameterIndex.IsName name := by
  cases item with
  | word w => exact h.value.isName
  | comment c => simp [names]
  | setting s => exact List.forall_mem_append.mpr ⟨h.index.isName, h.value.isName⟩

theorem Word.any_isLineEnd {w : Word} (hletter : w.letter ∈ wordLetters)
    (hnames : ∀ name ∈ w.value.names, ParameterIndex.IsName name) :
    w.text.toList.any Text.isLineEnd = false := by
  have hletters : wordLetters.all (fun c => !Text.isLineEnd c) = true := by decide
  have hend := List.all_eq_true.mp hletters w.letter hletter
  rw [Bool.not_eq_true'] at hend
  have hvalue := RealValue.any_isLineEnd hnames
  have hspace : Text.isLineEnd ' ' = false := rfl
  rw [text]
  split
  · simp [hend, hspace, hvalue]
  · simp [hend, hvalue]

theorem Setting.any_isLineEnd {s : Setting}
    (hnames : ∀ name ∈ s.index.names ++ s.value.names, ParameterIndex.IsName name) :
    s.text.toList.any Text.isLineEnd = false := by
  obtain ⟨hindex, hvalue⟩ := List.forall_mem_append.mp hnames
  simp [text, ParameterIndex.any_isLineEnd hindex, RealValue.any_isLineEnd hvalue, Text.isLineEnd]

/-! ## Parts -/

/-- What may follow a part. -/
def EndsPart (rest : List Char) : Prop :=
  ∀ c ∈ rest.head?, c = ' '

theorem EndsPart.endsValue {rest : List Char} (h : EndsPart rest) : EndsValue rest :=
  fun c hc => .inl (h c hc)

theorem EndsPart.free {rest : List Char} (h : EndsPart rest) : ∀ c ∈ rest.head?, Operator.Free c := by
  intro c hc
  rw [h c hc]
  exact Operator.free_space

/-- The characters scan as the tokens between any two spaces, and end no line. -/
structure Part (cs : List Char) (ts : List Token) : Prop where
  scans : ∀ a rest, EndsPart rest → ∃ b, Scans a (cs ++ rest) ts b rest
  back : ∀ c ∈ cs.getLast?, Text.isLineEnd c = false

theorem Part.mark : Part ['/'] [.operator (.binary .divide)] where
  scans := fun a rest hrest =>
    ⟨false, @Scans.operator a (.binary .divide) rest (fun hs => by cases hs) hrest.free⟩
  back := Text.back_of_any rfl

theorem Part.number {n : Number} (h : n.Finite) :
    Part ('N' :: n.text.toList) [.letter 'N', .number n n.numeral.classify] where
  scans := fun a _ hrest =>
    ⟨true, (Scans.letter List.mem_cons_self rfl a).append (Number.scans h hrest.endsValue)⟩
  back := Text.back_of_any n.any_isLineEnd

theorem Part.word {w : Word} (h : w.Shaped Number.Finite) :
    Part w.text.toList (.letter w.letter :: w.value.tokens) where
  scans := by
    intro a rest hrest
    have hletter := List.mem_cons_of_mem 'N' h.letter
    have hvalue := RealValue.scans h.value hrest.endsValue
    refine ⟨true, ?_⟩
    rw [Word.text]
    split
    · -- the space keeps the letter from reading as a keyword
      have hfront : Operator.atFront? ([w.letter] ++ ' ' :: (w.value.text.toList ++ rest)) = none := by
        rw [Operator.atFront?_append _ (by rintro _ ⟨⟩; exact Operator.free_space),
          Operator.atFront?_letter h.letter]
      simpa using (Scans.letter hletter hfront a).append hvalue.space
    · rename_i hcollides
      have hfront : Operator.atFront? ((w.letter :: w.value.text.toList) ++ rest) = none := by
        rw [Operator.atFront?_append _ hrest.free]
        simpa [Word.collides_eq] using hcollides
      simpa using (Scans.letter hletter hfront a).append hvalue
  back := Text.back_of_any (Word.any_isLineEnd h.letter h.value.isName)

theorem Part.comment {c : Comment} (hl : '(' ∉ c.text.toList) (hr : ')' ∉ c.text.toList) :
    Part c.written.toList [.comment c.text] where
  scans := fun a rest _ => ⟨false, by simpa [Comment.written] using Scans.comment hl hr a rest⟩
  back := by
    simp only [Comment.written, String.toList_append, List.getLast?_append]
    rintro _ ⟨⟩
    rfl

theorem Part.setting {s : Setting} (h : s.Shaped Number.Finite) :
    Part s.text.toList (.hash :: (s.index.tokens ++ .equals :: s.value.tokens)) where
  scans := by
    intro a rest hrest
    have hvalue := (Scans.equals true _).append (RealValue.scans h.value hrest.endsValue)
    have hindex := (ParameterIndex.scans h.index (endsValue_cons (.inr (.inr rfl)) _)).append hvalue
    exact ⟨true, by simpa [Setting.text] using (Scans.hash a _).append hindex⟩
  back := Text.back_of_any
    (Setting.any_isLineEnd (List.forall_mem_append.mpr ⟨h.index.isName, h.value.isName⟩))

theorem Part.item {item : Item} (h : item.Shaped Number.Finite) : Part item.text.toList item.tokens := by
  cases item with
  | word w => exact .word h
  | comment c => exact .comment h.1 h.2
  | setting s => exact .setting h

end GCode
