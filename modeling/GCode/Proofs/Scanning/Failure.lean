import GCode.Proofs.Scanning.Cutting

/-!
# Texts that do not scan

The error of a text names a position in it and the character that stands there.
-/

namespace GCode

/-- The character at the position is the one that the error is about. -/
def LexicalError.At (text : List Char) : LexicalError → Prop
  | .unexpectedCharacter p c => text[p]? = some c
  | .nestedComment p | .unterminatedComment p => text[p]? = some '('
  | .unterminatedName p => text[p]? = some '<'

theorem LexicalError.At.position_lt {text : List Char} {e : LexicalError} (h : e.At text) :
    e.position < text.length := by
  cases e <;> exact (List.getElem?_eq_some_iff.mp h).1

namespace Lexeme

variable {text : List Char} {a : Bool} {p : Nat} {c : Char} {cs : List Char} {e : LexicalError}

theorem getElem?_of_drop {q : Nat} (h : text.drop p = c :: cs) : text[p + 1 + q]? = cs[q]? := by
  have hget : (text.drop p)[q + 1]? = cs[q]? := by rw [h, List.getElem?_cons_succ]
  rw [← hget, List.getElem?_drop]
  congr 1
  omega

theorem getElem?_head_of_drop (h : text.drop p = c :: cs) : text[p]? = some c := by
  have hget : (text.drop p)[0]? = some c := by rw [h, List.getElem?_cons_zero]
  rwa [List.getElem?_drop] at hget

theorem comment_error (hdrop : text.drop p = '(' :: cs) (h : comment p cs = .error e) : e.At text := by
  have hstop := Text.stops_dropWhile isCommentChar cs
  rw [comment] at h
  split at h
  · cases h
  · rename_i d rest hnot hrest
    cases h
    have hget : cs[(cs.takeWhile isCommentChar).length]? = some d := by
      rw [← Nat.add_zero (cs.takeWhile isCommentChar).length, ← List.getElem?_drop, hrest,
        List.getElem?_cons_zero]
    rw [← Text.drop_length_takeWhile, hrest, Text.stops_cons] at hstop
    have hopen : d = '(' ∨ d = ')' := by simpa [isCommentChar, Decidable.or_iff_not_imp_left] using hstop
    rw [LexicalError.At, getElem?_of_drop hdrop, hget, hopen.resolve_right hnot]
  · cases h
    exact getElem?_head_of_drop hdrop

theorem name_error (hdrop : text.drop p = '<' :: cs) (h : name p cs = .error e) : e.At text := by
  rw [name] at h
  split at h
  · rename_i d rest hrest
    split at h
    · cases h
    · cases h
      rw [LexicalError.At, getElem?_of_drop hdrop,
        ← Nat.add_zero (cs.takeWhile ParameterIndex.isNameChar).length, ← List.getElem?_drop, hrest,
        List.getElem?_cons_zero]
  · cases h
    exact getElem?_head_of_drop hdrop

theorem keywordOrLetter_error (hdrop : text.drop p = c :: cs) (h : keywordOrLetter p c cs = .error e) :
    e.At text := by
  rw [keywordOrLetter] at h
  split at h
  · cases h
  · split at h
    · cases h
    · cases h
      exact getElem?_head_of_drop hdrop

theorem scan_error (hdrop : text.drop p = c :: cs) (h : scan a p c cs = .error e) : e.At text := by
  revert h
  fun_cases scan a p c cs with
  | case5 => exact comment_error hdrop
  | case6 => exact name_error hdrop
  | case9 _ hn =>
      rw [if_neg hn]
      exact keywordOrLetter_error hdrop
  | case8 _ hn =>
      rw [if_pos hn]
      rintro ⟨⟩
  | _ => rintro ⟨⟩

end Lexeme

namespace Cursor

theorem In.error {text : List Char} {cursor : Cursor} {e : LexicalError} (h : cursor.In text)
    (hnext : cursor.next? = some (.error e)) : e.At text := by
  have hin := h.skipGap.1
  rw [next?] at hnext
  split at hnext
  · cases hnext
  · rename_i c cs hrest
    split at hnext
    · cases hnext
    · rename_i hscan
      cases hnext
      exact Lexeme.scan_error (hin.rest.symm.trans hrest) hscan

theorem In.failure {text : List Char} {cursor : Cursor} {e : LexicalError} (h : cursor.In text)
    (hrun : cursor.run.2 = some e) : e.At text := by
  induction cursor using run.induct with
  | case1 cursor hnext =>
      rw [run_of_none hnext] at hrun
      cases hrun
  | case2 cursor d hnext =>
      rw [run_of_error hnext] at hrun
      cases hrun
      exact h.error hnext
  | case3 cursor token after hnext _ _ _ ih =>
      rw [run_of_ok hnext] at hrun
      obtain ⟨_, _, _, _, _, hin, _⟩ := h.next hnext
      exact ih hin hrun

end Cursor

/-- The error of a text that has no tokens is about a character of the text. -/
theorem tokenize_error {text : String} {e : LexicalError} (h : tokenize text = .error e) :
    e.At text.toList := by
  have hrun : (Cursor.start text.toList).run.2 = some e := by
    rw [tokenize, Cursor.tokens] at h
    split at h
    · cases h
    · rename_i hrun
      cases h
      rw [hrun]
  exact (Cursor.In.start text.toList).failure hrun

end GCode
