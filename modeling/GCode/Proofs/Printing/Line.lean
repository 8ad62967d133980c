import GCode.Proofs.Printing.Item

/-!
# Printed lines

Reading the text of a line gives the line.
-/

namespace GCode

variable {literal : Number → Prop}

/-! ## Tokens -/

def Line.markTokens (line : Line) : List Token :=
  if line.deleted then [.operator (.binary .divide)] else []

def Line.numberTokens (line : Line) : List Token :=
  match line.number with
  | none => []
  | some n => [.letter 'N', .number n n.numeral.classify]

/-- The tokens that a line is written with. -/
def Line.tokens (line : Line) : List Token :=
  line.markTokens ++ (line.numberTokens ++
    (line.items.flatMap Item.tokens ++ (line.comment.map Token.lineComment).toList))

theorem Line.derives_items {items : List Item} (h : ∀ item ∈ items, item.Shaped literal) :
    Grammar.Segments (items.flatMap Item.tokens) items := by
  induction items with
  | nil => exact .nil
  | cons item items ih =>
      obtain ⟨hitem, hitems⟩ := List.forall_mem_cons.mp h
      exact .cons (Item.derives hitem) (ih hitems)

theorem Line.derives {line : Line} (h : line.Shaped literal) : Grammar.Line line.tokens line := by
  obtain ⟨deleted, number, comment, items⟩ := line
  refine .mk ?_ ?_ (derives_items h.items) ?_
  · cases deleted with
    | false => exact .absent
    | true => exact .present
  · cases number with
    | none => exact .absent
    | some n =>
        obtain ⟨hline, hnorm⟩ := h.number n rfl
        have hnumber := Grammar.LineNumber.present (Number.classify_numeral hline hnorm).2 hline
        rw [hnorm] at hnumber
        exact hnumber
  · cases comment with
    | none => exact .absent
    | some text => exact .present (h.comment text rfl).1

/-! ## Texts -/

/-- The parts of a line scan as the tokens. Only the last one may run to the end of the text. -/
inductive Parts : List String → List Token → Prop where
  | nil : Parts [] []
  | last {text : String} {ts} : (∀ a, ∃ b, Scans a text.toList ts b []) →
      (∀ c ∈ text.toList.getLast?, Text.isLineEnd c = false) → Parts [text] ts
  | cons {text : String} {texts ts us} : Part text.toList ts → Parts texts us →
      Parts (text :: texts) (ts ++ us)

/-- The parts behind the first one, each with a space before it. -/
def spaced (texts : List String) : List Char :=
  texts.flatMap fun text => ' ' :: text.toList

theorem endsPart_spaced (texts : List String) : EndsPart (spaced texts) := by
  cases texts with
  | nil => simp [spaced, EndsPart]
  | cons text texts => simp [spaced, EndsPart]

theorem toList_intercalate_cons (text : String) (texts : List String) :
    (" ".intercalate (text :: texts)).toList = text.toList ++ spaced texts := by
  rw [String.toList_intercalate, List.map_cons]
  induction texts generalizing text with
  | nil => simp [spaced]
  | cons next texts ih =>
      rw [List.map_cons, List.intercalate_cons_cons, ih]
      simp [spaced]

theorem Parts.scans_spaced {texts : List String} {ts : List Token} (h : Parts texts ts) (a : Bool) :
    ∃ b, Scans a (spaced texts) ts b [] := by
  induction h generalizing a with
  | nil => exact ⟨a, .nil a []⟩
  | last hscans _ =>
      obtain ⟨b, hb⟩ := hscans a
      exact ⟨b, by simpa [spaced] using hb.space⟩
  | cons hpart _ ih =>
      obtain ⟨b, hb⟩ := hpart.scans a _ (endsPart_spaced _)
      obtain ⟨c, hc⟩ := ih b
      exact ⟨c, by simpa [spaced] using (hb.append hc).space⟩

theorem Parts.scans {texts : List String} {ts : List Token} (h : Parts texts ts) :
    ∃ b, Scans false (" ".intercalate texts).toList ts b [] := by
  cases h with
  | nil => exact ⟨false, .nil false []⟩
  | last hscans _ =>
      obtain ⟨b, hb⟩ := hscans false
      exact ⟨b, by simpa [toList_intercalate_cons, spaced] using hb⟩
  | cons hpart hparts =>
      obtain ⟨b, hb⟩ := hpart.scans false _ (endsPart_spaced _)
      obtain ⟨c, hc⟩ := hparts.scans_spaced b
      rw [toList_intercalate_cons]
      exact ⟨c, hb.append hc⟩

theorem Parts.back_spaced {texts : List String} {ts : List Token} (h : Parts texts ts) :
    ∀ c ∈ (spaced texts).getLast?, Text.isLineEnd c = false := by
  have hspace : ∀ c ∈ [' '].getLast?, Text.isLineEnd c = false := Text.back_of_any rfl
  induction h with
  | nil => simp [spaced]
  | last _ hback => simpa [spaced] using Text.back_append hspace hback
  | cons hpart _ ih =>
      simpa [spaced] using Text.back_append (Text.back_append hspace hpart.back) ih

theorem Parts.back {texts : List String} {ts : List Token} (h : Parts texts ts) :
    ∀ c ∈ (" ".intercalate texts).toList.getLast?, Text.isLineEnd c = false := by
  cases h with
  | nil => simp
  | last _ hback => simpa [toList_intercalate_cons, spaced] using hback
  | cons hpart hparts =>
      rw [toList_intercalate_cons]
      exact Text.back_append hpart.back hparts.back_spaced

theorem Parts.items {texts : List String} {ts : List Token} (hrest : Parts texts ts)
    {items : List Item} (h : ∀ item ∈ items, item.Shaped Number.Finite) :
    Parts (items.map Item.text ++ texts) (items.flatMap Item.tokens ++ ts) := by
  induction items with
  | nil => exact hrest
  | cons item items ih =>
      obtain ⟨hitem, hitems⟩ := List.forall_mem_cons.mp h
      simpa using Parts.cons (.item hitem) (ih hitems)

theorem Parts.number {texts : List String} {ts : List Token} (hrest : Parts texts ts) {line : Line}
    (h : line.Shaped Number.Finite) :
    Parts ((line.number.map fun n => "N" ++ n.text).toList ++ texts) (line.numberTokens ++ ts) := by
  rw [Line.numberTokens]
  cases hn : line.number with
  | none => exact hrest
  | some n =>
      obtain ⟨hline, hnorm⟩ := h.number n hn
      have hpart := Part.number (Number.classify_numeral hline hnorm).1
      exact .cons (by simpa using hpart) hrest

theorem Parts.mark {texts : List String} {ts : List Token} (hrest : Parts texts ts) (deleted : Bool) :
    Parts ((if deleted then ["/"] else []) ++ texts)
      ((if deleted then [.operator (.binary .divide)] else []) ++ ts) := by
  cases deleted with
  | false => exact hrest
  | true => exact .cons .mark hrest

theorem Parts.lineComment {text : String} (h : Text.Trimmed Text.isBlank text.toList) :
    Parts ["; " ++ text] [.lineComment text] := by
  refine .last (fun a => ⟨false, by simpa using Scans.lineComment h a⟩) ?_
  have hsemicolon : ∀ c ∈ "; ".toList.getLast?, Text.isLineEnd c = false := Text.back_of_any rfl
  rw [String.toList_append]
  exact Text.back_append hsemicolon fun c hc => Text.isLineEnd_of_test (h.back c hc) rfl rfl

theorem Line.parts_tokens {line : Line} (h : line.Shaped Number.Finite)
    (hcomment : line.comment ≠ some "") :
    Parts line.parts line.tokens := by
  rw [parts, tokens, List.append_assoc, List.append_assoc]
  refine .mark (.number (.items ?_ h.items) h) line.deleted
  cases hc : line.comment with
  | none => exact .nil
  | some text =>
      have hne : text.isEmpty = false := by
        rw [String.isEmpty_eq_false_iff]
        rintro rfl
        exact hcomment hc
      simpa [hne] using Parts.lineComment (h.comment text hc).2

/-- Reading the text of a line gives the line. -/
theorem readLine_text {line : Line} (h : line.Shaped Number.Finite)
    (hcomment : line.comment ≠ some "") :
    readLine line.text = .ok line := by
  have hparts := line.parts_tokens h hcomment
  obtain ⟨b, hscans⟩ := hparts.scans
  obtain ⟨tokens, htokens, hkinds⟩ := tokenize_of_scans hscans
  rw [readLine_eq_ok_iff, Line.text, Reader.lineText_of_back hparts.back]
  exact ⟨tokens, htokens, hkinds ▸ Line.derives h⟩

/-- A bracketed divisor, an index of an index, and a letter that is kept apart from a keyword. -/
theorem readLine_text_nested :
    ∃ line : Line, line.Shaped Number.Finite ∧ line.comment ≠ some "" ∧
      line.text = "/ N10 X[#5 + [atan[0.5] / [-2]]] (c) A cos[0] ##<a>=-0.1 ; end" ∧
      readLine line.text = .ok line := by
  let ratio : RealValue := .binary .divide
    (.unary .arcTangent (.literal (.decimal (Binary64.nearest false 1 2)))) (.literal (.integer (-2)))
  let line : Line := ⟨true, some (.integer 10), some "end",
    [.word ⟨'X', .binary .add (.parameter (.number 5)) ratio⟩, .comment ⟨"c"⟩,
      .word ⟨'A', .unary .cosine (.literal (.integer 0))⟩,
      .setting ⟨.expression (.parameter (.named "a")),
        .literal (.decimal (Binary64.nearest true 1 10))⟩]⟩
  have hshaped : line.Shaped Number.Finite := by
    have hhalf : Binary64.isFinite (Binary64.nearest false 1 2) = true := by decide +kernel
    have htenth : Binary64.isFinite (Binary64.nearest true 1 10) = true := by decide +kernel
    have htrimmed : Text.Trimmed Text.isBlank "end".toList :=
      ⟨by rintro _ ⟨⟩; rfl, Text.back_of_any rfl⟩
    refine ⟨by decide +kernel, by rintro _ ⟨⟩; exact ⟨by decide, htrimmed⟩, ?_⟩
    simp only [line, ratio, List.forall_mem_cons]
    refine ⟨⟨by decide, ?_⟩, ⟨by decide, by decide⟩, ⟨by decide, ?_⟩, ⟨?_, ?_⟩, by simp⟩
    · simp [RealValue.Shaped, ParameterIndex.Shaped, Number.Finite, hhalf]
    · simp [RealValue.Shaped, Number.Finite]
    · simp only [ParameterIndex.Shaped, RealValue.Shaped]
      exact ⟨rfl, by decide, List.all_eq_true.mp rfl⟩
    · simpa [RealValue.Shaped, Number.Finite] using htenth
  have hcomment : line.comment ≠ some "" := by decide
  exact ⟨line, hshaped, hcomment, by decide +kernel, readLine_text hshaped hcomment⟩

end GCode
