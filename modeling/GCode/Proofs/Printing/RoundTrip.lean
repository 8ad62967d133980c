import GCode.Proofs.Printing.Line

/-!
# Reading what was read

A line that was read is written so that it reads back, if its literals are finite. An empty comment at
the end of a line is not written, and is lost.
-/

namespace GCode

variable {p q : Number → Prop}

/-! ## Literals -/

mutual
/-- The literals in a value, at any depth. -/
def RealValue.literals : RealValue → List Number
  | .literal n => [n]
  | .parameter i => i.literals
  | .unary _ arg => arg.literals
  | .binary _ left right => left.literals ++ right.literals

def ParameterIndex.literals : ParameterIndex → List Number
  | .number _ => []
  | .named _ => []
  | .expression v => v.literals
end

def Item.literals : Item → List Number
  | .word w => w.value.literals
  | .comment _ => []
  | .setting s => s.index.literals ++ s.value.literals

/-- The literals in the words and settings of a line. -/
def Line.literals (line : Line) : List Number :=
  line.items.flatMap Item.literals

mutual
/-- The condition of a shape can be exchanged for one that the literals meet. -/
theorem RealValue.Shaped.of_literals {v : RealValue} {divided : Bool} (h : v.Shaped p divided)
    (hq : ∀ n ∈ v.literals, q n) : v.Shaped q divided := by
  match v with
  | .literal n =>
      simp only [RealValue.Shaped]
      exact hq n (by simp [RealValue.literals])
  | .parameter i =>
      simp only [RealValue.Shaped] at h ⊢
      exact h.of_literals (by simpa only [RealValue.literals] using hq)
  | .unary op arg =>
      simp only [RealValue.Shaped] at h ⊢
      exact ⟨h.1, h.2.of_literals (by simpa only [RealValue.literals] using hq)⟩
  | .binary op left right =>
      simp only [RealValue.Shaped] at h ⊢
      simp only [RealValue.literals, List.forall_mem_append] at hq
      exact ⟨h.1.of_literals hq.1, h.2.of_literals hq.2⟩

theorem ParameterIndex.Shaped.of_literals {i : ParameterIndex} (h : i.Shaped p)
    (hq : ∀ n ∈ i.literals, q n) : i.Shaped q := by
  match i with
  | .number _ => simp only [ParameterIndex.Shaped]
  | .named _ => simpa only [ParameterIndex.Shaped] using h
  | .expression v =>
      simp only [ParameterIndex.Shaped] at h ⊢
      exact ⟨h.1, h.2.of_literals (by simpa only [ParameterIndex.literals] using hq)⟩
end

theorem Item.Shaped.of_literals {item : Item} (h : item.Shaped p) (hq : ∀ n ∈ item.literals, q n) :
    item.Shaped q := by
  cases item with
  | word w => exact ⟨h.letter, h.value.of_literals hq⟩
  | comment c => exact h
  | setting s =>
      obtain ⟨hindex, hvalue⟩ := List.forall_mem_append.mp hq
      exact ⟨h.index.of_literals hindex, h.value.of_literals hvalue⟩

theorem Line.Shaped.of_literals {line : Line} (h : line.Shaped p) (hq : ∀ n ∈ line.literals, q n) :
    line.Shaped q where
  number := h.number
  comment := h.comment
  items := fun item hitem =>
    (h.items item hitem).of_literals fun n hn => hq n (List.mem_flatMap.mpr ⟨item, hitem, hn⟩)

/-! ## Empty comments -/

/-- The line without its comment at the end, if that is empty. -/
def Line.dropEmptyComment (line : Line) : Line :=
  { line with comment := line.comment.filter fun text => text ≠ "" }

theorem Line.comment_dropEmptyComment (line : Line) : line.dropEmptyComment.comment ≠ some "" := by
  simp [dropEmptyComment, Option.filter_eq_some_iff]

theorem Line.dropEmptyComment_eq_iff {line : Line} :
    line.dropEmptyComment = line ↔ line.comment ≠ some "" := by
  constructor
  · intro h
    rw [← h]
    exact line.comment_dropEmptyComment
  · intro h
    obtain ⟨deleted, number, comment, items⟩ := line
    cases comment with
    | none => rfl
    | some text =>
        have hne : text ≠ "" := fun he => h (congrArg some he)
        simp [dropEmptyComment, hne]

theorem Line.text_dropEmptyComment (line : Line) : line.dropEmptyComment.text = line.text := by
  by_cases h : line.comment = some ""
  · simp [text, parts, dropEmptyComment, h, Option.filter]
  · rw [dropEmptyComment_eq_iff.mpr h]

theorem Line.Shaped.dropEmptyComment {line : Line} (h : line.Shaped p) :
    line.dropEmptyComment.Shaped p where
  number := h.number
  comment := fun text htext => h.comment text (Option.filter_eq_some_iff.mp htext).1
  items := h.items

/-! ## Lines -/

/-- A text whose parts scan as the tokens of a line reads as that line. -/
theorem Parts.readLine {texts : List String} {ts : List Token} (h : Parts texts ts) {line : Line}
    (hline : Grammar.Line ts line) : readLine (" ".intercalate texts) = .ok line := by
  obtain ⟨_, hscans⟩ := h.scans
  obtain ⟨tokens, htokens, hkinds⟩ := tokenize_of_scans hscans
  rw [readLine_eq_ok_iff, Reader.lineText_of_back h.back]
  exact ⟨tokens, htokens, hkinds ▸ hline⟩

/-- The text of a line that was read reads as the line without an empty comment; so it is the same line
exactly if the comment is not empty. -/
theorem readLine_text_of_readLine {text : String} {line : Line} (h : readLine text = .ok line)
    (hfinite : ∀ n ∈ line.literals, n.Finite) :
    readLine line.text = .ok line.dropEmptyComment ∧
      (readLine line.text = .ok line ↔ line.comment ≠ some "") := by
  -- a line that was read has the shape of one that reads back, but for an empty comment; and without that
  -- comment its text is the same
  have hshaped := ((Line.shaped_of_readLine h).of_literals hfinite).dropEmptyComment
  have hparts := Line.parts_tokens hshaped line.comment_dropEmptyComment
  have hread : readLine line.text = .ok line.dropEmptyComment := by
    rw [← line.text_dropEmptyComment]
    exact hparts.readLine (Line.derives hshaped)
  refine ⟨hread, ?_⟩
  rw [hread, Except.ok.injEq]
  exact Line.dropEmptyComment_eq_iff

/-- A line with a computed index, a letter kept apart from a keyword, and an empty comment. -/
theorem readLine_text_of_readLine_nested :
    ∃ line, readLine "/n007 a cos[.5] (c) ##<t>=[8/atan[2.]/[-3]] ;  " = .ok line ∧
      (∀ n ∈ line.literals, n.Finite) ∧ readLine line.text = .ok line.dropEmptyComment ∧
      (readLine line.text = .ok line ↔ line.comment ≠ some "") := by
  have hread : readLine "/n007 a cos[.5] (c) ##<t>=[8/atan[2.]/[-3]] ;  " =
      .ok ⟨true, some (.integer 7), some "",
        [.word ⟨'A', .unary .cosine (.literal (.decimal (Binary64.nearest false 1 2)))⟩,
          .comment ⟨"c"⟩,
          .setting ⟨.expression (.parameter (.named "t")),
            .binary .divide (.literal (.integer 8)) (.binary .divide
              (.unary .arcTangent (.literal (.decimal (Binary64.nearest false 2 1))))
              (.literal (.integer (-3))))⟩]⟩ := by
    decide +kernel
  have hhalf : Binary64.isFinite (Binary64.nearest false 1 2) = true := by decide +kernel
  have htwo : Binary64.isFinite (Binary64.nearest false 2 1) = true := by decide +kernel
  refine ⟨_, hread, ?_, readLine_text_of_readLine hread ?_⟩ <;>
    simp [Line.literals, Item.literals, RealValue.literals, ParameterIndex.literals, Number.Finite,
      hhalf, htwo]

/-- A numeral that is too large for a finite number. -/
def Numeral.huge : Numeral := ⟨none, List.replicate 310 '9', none⟩

theorem Numeral.wellFormed_huge : huge.WellFormed where
  whole := by
    intro c hc
    rw [List.eq_of_mem_replicate hc]
    rfl
  fraction := by rintro _ ⟨⟩
  digits := Or.inl (List.cons_ne_nil _ _)

theorem Numeral.readLine_huge :
    readLine (String.ofList ('X' :: huge.spelling)) =
      .ok ⟨false, none, none, [.word ⟨'X', .literal huge.number⟩]⟩ := by
  have hparts : Parts [String.ofList ('X' :: huge.spelling)]
      [.letter 'X', .number huge.number huge.classify] := by
    have hnumeral : Scans false (huge.spelling ++ []) _ true [] :=
      Scans.numeral wellFormed_huge ⟨by simp, by simp⟩
    rw [List.append_nil] at hnumeral
    have hback : ('X' :: huge.spelling).any Text.isLineEnd = false := by decide +kernel
    refine .last (fun a => ⟨true, ?_⟩) ?_ <;> rw [String.toList_ofList]
    · exact (Scans.letter (by decide) (by decide +kernel) a).append hnumeral
    · exact Text.back_of_any hback
  have hword : Grammar.Segment [.letter 'X', .number huge.number huge.classify]
      (.word ⟨'X', .literal huge.number⟩) := .word (.mk (by decide) (.number _ _))
  simpa using hparts.readLine (Grammar.Line.mk .absent .absent (.cons hword .nil) .absent)

/-- A comment without text is lost, and a literal that is too large is written as a word that does not
read. -/
theorem readLine_text_ne :
    (∃ line again, readLine ";" = .ok line ∧ readLine line.text = .ok again ∧ (again == line) = false) ∧
      ∃ line e, readLine (String.ofList ('X' :: Numeral.huge.spelling)) = .ok line ∧
        readLine line.text = .error e := by
  constructor
  · exact ⟨⟨false, none, some "", []⟩, {}, by decide +kernel, by decide +kernel, by decide +kernel⟩
  · exact ⟨_, .unexpectedToken ⟨.letter 'I', 1⟩ .value, Numeral.readLine_huge, by decide +kernel⟩

end GCode
