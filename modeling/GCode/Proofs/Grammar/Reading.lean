import GCode.Proofs.Grammar.Soundness
import GCode.Proofs.Text
import GCode.Reader.Basic

/-!
# Reading is deriving

The reader accepts exactly the token sequences that the grammar derives, and gives what they derive.
The same holds of whole texts, whose tokens come from the scanner.
-/

namespace GCode

open Reader

theorem Grammar.steps_start_iff {ts : List Token} {line : GCode.Line} :
    (∃ last, State.start.steps ts = .ok last ∧ last.line? = some line) ↔ Grammar.Line ts line := by
  constructor
  · rintro ⟨last, hs, hl⟩
    exact (Reached.start.steps hs).derives_line hl
  · exact Grammar.Line.steps

theorem Grammar.steps_word_iff {ts : List Token} {w : GCode.Word} :
    (∃ last, State.word.steps ts = .ok last ∧ last.word? = some w) ↔ Grammar.Word ts w := by
  constructor
  · rintro ⟨last, hs, hw⟩
    exact (Reached.word.steps hs).derives_word hw
  · rintro ⟨hc, hv⟩
    rename_i c ts v
    refine ⟨.wholeWord ⟨c.toUpper, v⟩, ?_, rfl⟩
    have hstep : State.word.step (.letter c) = .ok (.value (.loneWord c)) := by
      simp [State.step, ne_N_of_mem_wordLetters hc]
    rw [State.steps_cons_of_ok hstep, hv.steps, Context.put, Word.make_eq_ok_iff.mpr ⟨hc, rfl⟩]
    rfl

theorem Grammar.steps_value_iff {ts : List Token} {v : RealValue} :
    (∃ last, (State.value .alone).steps ts = .ok last ∧ last.value? = some v) ↔
      Grammar.Value ts v := by
  constructor
  · rintro ⟨last, hs, hv⟩
    exact (Reached.value .alone |>.steps hs).derives_value hv
  · intro hv
    exact ⟨.wholeValue v, hv.steps .alone, rfl⟩

/-- A token sequence is accepted as a line exactly if the grammar derives one from it, and then that
line is read. -/
theorem read_line_eq_ok_iff_derives (length : Nat) (tokens : List PlacedToken) (line : Line) :
    State.start.read State.line? length tokens = .ok line ↔
      Grammar.Line (tokens.map (·.token)) line := by
  rw [State.read_eq_ok_iff]
  exact Grammar.steps_start_iff

/-! ## Texts -/

theorem Reader.lineText_of_back {text : String}
    (h : ∀ c ∈ text.toList.getLast?, Text.isLineEnd c = false) : lineText text = text := by
  rw [lineText, Text.dropEndWhile_of_back h, String.ofList_toList]

theorem Reader.lineText_append_space (a b : String) :
    lineText (a ++ " " ++ b) = a ++ " " ++ lineText b := by
  apply String.toList_inj.mp
  simp only [lineText, String.toList_append, String.toList_ofList, List.append_assoc]
  exact Text.dropEndWhile_append_cons (by decide) a.toList b.toList

theorem Reader.read_eq_ok_iff {α : Type} {reader : Reader} {s : State} {result? : State → Option α}
    {text : String} {a : α} :
    (reader.read s result? text).1 = .ok a ↔
      ∃ tokens, tokenize text = .ok tokens ∧
        ∃ last, s.steps (tokens.map (·.token)) = .ok last ∧ result? last = some a := by
  simp only [Reader.read, bind_eq_ok_iff, mapError_eq_ok_iff, State.read_eq_ok_iff]
  rfl

theorem readLine_eq_ok_iff {text : String} {line : Line} :
    readLine text = .ok line ↔
      ∃ tokens, tokenize (Reader.lineText text) = .ok tokens ∧
        Grammar.Line (tokens.map (·.token)) line := by
  rw [readLine, Reader.line, Reader.read_eq_ok_iff]
  simp only [Grammar.steps_start_iff]

theorem readWord_eq_ok_iff {text : String} {w : Word} :
    readWord text = .ok w ↔
      ∃ tokens, tokenize text = .ok tokens ∧ Grammar.Word (tokens.map (·.token)) w := by
  rw [readWord, Reader.word, Reader.read_eq_ok_iff]
  simp only [Grammar.steps_word_iff]

theorem readValue_eq_ok_iff {text : String} {v : RealValue} :
    readValue text = .ok v ↔
      ∃ tokens, tokenize text = .ok tokens ∧ Grammar.Value (tokens.map (·.token)) v := by
  rw [readValue, Reader.value, Reader.read_eq_ok_iff]
  simp only [Grammar.steps_value_iff]

end GCode
