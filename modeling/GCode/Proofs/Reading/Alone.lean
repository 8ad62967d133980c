import GCode.Proofs.Reading.Spaced

/-!
# Words and values on their own

A word on its own is the only item of a line. A value on its own is what can stand behind a letter: a
letter and a space in front of a text move its tokens and change none of them.
-/

namespace GCode

open Reader

/-! ## Words in lines -/

namespace Grammar

variable {ts : List Token} {w : GCode.Word}

theorem segment_word_iff : Segment ts (.word w) ↔ Word ts w := by
  constructor
  · intro h
    cases h with
    | word hw => exact hw
  · exact Segment.word

theorem segments_singleton_iff {item : Item} : Segments ts [item] ↔ Segment ts item := by
  constructor
  · intro h
    cases h with
    | cons hitem hrest =>
        cases hrest with
        | nil => rw [List.append_nil]; exact hitem
  · intro h
    simpa using Segments.cons h .nil

/-- A line with nothing but one item has nothing but the tokens of that item. -/
theorem line_items_iff {items : List Item} : Line ts { items } ↔ Segments ts items := by
  constructor
  · intro h
    cases h with
    | mk hmark hnumber hitems hcomment =>
        cases hmark
        cases hnumber
        cases hcomment
        simpa using hitems
  · intro h
    simpa using Line.mk .absent .absent h .absent

theorem word_letter_iff {c : Char} {v : RealValue} (hc : c ∈ wordLetters) :
    Word (.letter c :: ts) ⟨c, v⟩ ↔ Value ts v := by
  have hupper := toUpper_of_mem_wordLetters hc
  constructor
  · intro h
    generalize hw : (⟨c, v⟩ : GCode.Word) = w at h
    cases h with
    | mk _ hv =>
        obtain rfl : v = _ := congrArg GCode.Word.value hw
        exact hv
  · intro h
    have hword := Word.mk (hupper.symm ▸ hc) h
    rw [hupper] at hword
    exact hword

end Grammar

/-- A word is read on its own exactly from the texts that are lines with that word alone. -/
theorem readWord_eq_ok_iff_readLine {text : String} {w : Word}
    (hback : ∀ c ∈ text.toList.getLast?, Text.isLineEnd c = false) :
    readWord text = .ok w ↔ readLine text = .ok { items := [.word w] } := by
  simp only [readWord_eq_ok_iff, readLine_eq_ok_iff, lineText_of_back hback, Grammar.line_items_iff,
    Grammar.segments_singleton_iff, Grammar.segment_word_iff]

/-! ## Moving a cursor -/

namespace Lexeme

theorem comment_add (p k : Nat) (cs : List Char) : comment (p + k) cs = (comment p cs).mapError (.shift 0 k) := by
  unfold comment
  simp only
  split <;> simp [Except.mapError, LexicalError.shift, Text.shifted]
  omega

theorem name_add (p k : Nat) (cs : List Char) : name (p + k) cs = (name p cs).mapError (.shift 0 k) := by
  unfold name
  simp only
  split
  · split <;> simp [Except.mapError, LexicalError.shift, Text.shifted]
    omega
  · simp [Except.mapError, LexicalError.shift, Text.shifted]

theorem keywordOrLetter_add (p k : Nat) (c : Char) (cs : List Char) :
    keywordOrLetter (p + k) c cs = (keywordOrLetter p c cs).mapError (.shift 0 k) := by
  unfold keywordOrLetter
  split
  · rfl
  · split <;> simp [Except.mapError, LexicalError.shift, Text.shifted]

/-- What is found does not depend on where it is looked for. -/
theorem scan_add (a : Bool) (p k : Nat) (c : Char) (cs : List Char) :
    scan a (p + k) c cs = (scan a p c cs).mapError (.shift 0 k) := by
  unfold scan
  split
  · rfl
  · rfl
  · rfl
  · rfl
  · exact comment_add p k cs
  · exact name_add p k cs
  · rfl
  · split
    · rfl
    · exact keywordOrLetter_add p k c cs

end Lexeme

namespace Cursor

/-- The cursor over the same rest of a text, `k` characters further on. -/
def move (k : Nat) (cursor : Cursor) : Cursor :=
  { cursor with position := cursor.position + k }

theorem skipGap_move (k : Nat) (cursor : Cursor) : (cursor.move k).skipGap = cursor.skipGap.move k := by
  simp only [skipGap, move]
  congr 1
  omega

theorem advance_move (k : Nat) (cursor : Cursor) (lexeme : Lexeme) :
    (cursor.move k).advance lexeme = (cursor.advance lexeme).move k := by
  simp only [advance, move]
  congr 1
  omega

theorem next?_move (k : Nat) (cursor : Cursor) :
    (cursor.move k).next? = cursor.next?.map fun result =>
      (result.map fun (token, after) => (token.shift 0 k, after.move k)).mapError (.shift 0 k) := by
  have hrest : (cursor.skipGap.move k).rest = cursor.skipGap.rest := rfl
  have hflag : (cursor.skipGap.move k).afterOperand = cursor.skipGap.afterOperand := rfl
  have hposition : (cursor.skipGap.move k).position = cursor.skipGap.position + k := rfl
  unfold next?
  simp only [skipGap_move, hrest, hflag, hposition, Lexeme.scan_add, advance_move]
  cases cursor.skipGap.rest with
  | nil => rfl
  | cons c cs =>
      simp only
      cases Lexeme.scan cursor.skipGap.afterOperand cursor.skipGap.position c cs with
      | error e => rfl
      | ok lexeme => rfl

/-- A moved cursor finds the same tokens or the same error, moved as it is. -/
theorem run_move (k : Nat) (cursor : Cursor) :
    (cursor.move k).run = (cursor.run.1.map (.shift 0 k), cursor.run.2.map (.shift 0 k)) := by
  induction cursor using run.induct with
  | case1 cursor hnext =>
      have hmoved : (cursor.move k).next? = none := by rw [next?_move, hnext]; rfl
      rw [run_of_none hnext, run_of_none hmoved]
      rfl
  | case2 cursor e hnext =>
      have hmoved : (cursor.move k).next? = some (.error (e.shift 0 k)) := by rw [next?_move, hnext]; rfl
      rw [run_of_error hnext, run_of_error hmoved]
      rfl
  | case3 cursor token after hnext _ _ _ ih =>
      have hmoved : (cursor.move k).next? = some (.ok (token.shift 0 k, after.move k)) := by
        rw [next?_move, hnext]
        rfl
      rw [run_of_ok hnext, run_of_ok hmoved, ih]
      rfl

end Cursor

/-- A front that ends with no operand adds its tokens to those of the text behind it. -/
theorem exists_tokenize_append_iff {front text : String} {ts us : List Token}
    (h : Scans false (front ++ text).toList ts false text.toList) :
    (∃ tokens, tokenize (front ++ text) = .ok tokens ∧ tokens.map (·.token) = us) ↔
      ∃ tokens, tokenize text = .ok tokens ∧ ts ++ tokens.map (·.token) = us := by
  obtain ⟨q, placed, rfl, hrun⟩ := h 0
  have hmoved := (Cursor.start text.toList).run_move q
  rw [Cursor.move, Cursor.start, Nat.zero_add] at hmoved
  rw [hmoved] at hrun
  have htoken (tokens : List PlacedToken) :
      (tokens.map (PlacedToken.shift 0 q)).map (·.token) = tokens.map (·.token) := by
    rw [List.map_map]
    rfl
  simp only [tokenize, Cursor.tokens_eq_ok_iff, Cursor.start] at hrun ⊢
  rw [hrun]
  cases hfound : Cursor.run { rest := text.toList } with
  | mk tokens failure =>
      cases failure with
      | none => simp [htoken]
      | some e => simp

/-! ## Values behind letters -/

theorem scans_letter_space {c : Char} (hc : c ∈ wordLetters) (cs : List Char) :
    Scans false (c :: ' ' :: cs) [.letter c] false cs := by
  have hletters : wordLetters.all fun c => (Operator.atFront? [c]).isNone := by decide
  have hfront : Operator.atFront? (c :: ' ' :: cs) = none := by
    rw [← List.singleton_append, Operator.atFront?_append]
    · simpa using List.all_eq_true.mp hletters c hc
    · rintro d ⟨⟩
      exact Operator.free_space
  exact (Scans.letter (List.mem_cons_of_mem _ hc) hfront false).append (Scans.nil false cs).space

/-- A value is read on its own exactly from the texts that give a word behind a letter and a space. -/
theorem readValue_eq_ok_iff_readWord {c : Char} (hc : c ∈ wordLetters) {text : String} {v : RealValue} :
    readValue text = .ok v ↔ readWord (c.toString ++ " " ++ text) = .ok ⟨c, v⟩ := by
  have htext : (c.toString ++ " " ++ text).toList = c :: ' ' :: text.toList := by simp
  have hscans := scans_letter_space hc text.toList
  rw [← htext] at hscans
  rw [readValue_eq_ok_iff, readWord_eq_ok_iff]
  constructor
  · rintro ⟨tokens, htokens, hvalue⟩
    obtain ⟨all, hall, hkinds⟩ := (exists_tokenize_append_iff hscans).mpr ⟨tokens, htokens, rfl⟩
    refine ⟨all, hall, ?_⟩
    rw [hkinds, List.singleton_append]
    exact (Grammar.word_letter_iff hc).mpr hvalue
  · rintro ⟨all, hall, hword⟩
    obtain ⟨tokens, htokens, hkinds⟩ := (exists_tokenize_append_iff hscans).mp ⟨all, hall, rfl⟩
    rw [← hkinds, List.singleton_append] at hword
    exact ⟨tokens, htokens, (Grammar.word_letter_iff hc).mp hword⟩

/-- A word on its own is a line with that word alone, unless a line end follows it, and a value on its own
is the value of a word with a space behind its letter. -/
theorem readWord_agrees (text : String) :
    ((∀ c ∈ text.toList.getLast?, Text.isLineEnd c = false) → ∀ w, readWord text = .ok w ↔
        ∃ line, readLine text = .ok line ∧ line.deleted = false ∧ line.number = none ∧
          line.comment = none ∧ line.items = [.word w]) ∧
      ∀ v, readValue text = .ok v ↔ readWord ("X " ++ text) = .ok ⟨'X', v⟩ := by
  constructor
  · intro hback w
    rw [readWord_eq_ok_iff_readLine hback]
    constructor
    · intro h
      exact ⟨_, h, rfl, rfl, rfl, rfl⟩
    · rintro ⟨⟨_, _, _, _⟩, h, rfl, rfl, rfl, rfl⟩
      exact h
  · intro v
    have hletter : "X " = 'X'.toString ++ " " := by decide
    rw [hletter]
    exact readValue_eq_ok_iff_readWord (by decide)

/-- Behind the letter the sign belongs to the number, and behind the number it is an operator. -/
theorem readWord_agrees_signs :
    (∀ c ∈ "a [-1-#<b>] ".toList.getLast?, Text.isLineEnd c = false) ∧
      ∃ w line, readWord "a [-1-#<b>] " = .ok w ∧ readLine "a [-1-#<b>] " = .ok line ∧
        line.items = [.word w] ∧ readWord ("X " ++ "-1") = .ok ⟨'X', .literal (.integer (-1))⟩ := by
  have hback : ∀ c ∈ "a [-1-#<b>] ".toList.getLast?, Text.isLineEnd c = false :=
    Text.back_of_any (by decide)
  have hword : readWord "a [-1-#<b>] " =
      .ok ⟨'A', .binary .subtract (.literal (.integer (-1))) (.parameter (.named "b"))⟩ := by
    decide +kernel
  have hvalue : readValue "-1" = .ok (.literal (.integer (-1))) := by decide +kernel
  obtain ⟨line, hline, _, _, _, hitems⟩ := ((readWord_agrees "a [-1-#<b>] ").1 hback _).mp hword
  exact ⟨hback, _, line, hword, hline, hitems, ((readWord_agrees "-1").2 _).mp hvalue⟩

end GCode
