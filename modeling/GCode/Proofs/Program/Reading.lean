import GCode.Proofs.Result
import GCode.Proofs.Text
import GCode.Reader.Basic
import Mathlib.Data.List.Forall2

/-!
# Reading programs

A program is read text by text. A blank text only counts, and of the others the first that is no line is
the error.
-/

namespace GCode

namespace Reader

/-- The texts that are not blank, each with its number; `number` is the number of the first text. -/
def numbered (number : Nat) (texts : List String) : List (String × Nat) :=
  (texts.zipIdx number).filter fun entry => !isBlank entry.1

theorem numbered_cons (number : Nat) (text : String) (texts : List String) :
    numbered number (text :: texts) =
      if isBlank text then numbered (number + 1) texts
      else (text, number) :: numbered (number + 1) texts := by
  rw [numbered, List.zipIdx_cons, List.filter_cons]
  cases isBlank text <;> rfl

theorem map_fst_numbered (number : Nat) (texts : List String) :
    (numbered number texts).map Prod.fst = texts.filter fun text => !isBlank text := by
  induction texts generalizing number with
  | nil => rfl
  | cons text texts ih =>
      rw [numbered_cons, List.filter_cons]
      cases isBlank text <;> simp [ih]

/-- The line of a numbered text. -/
def readNumbered (entry : String × Nat) : Except ProgramError Line :=
  (readLine entry.1).mapError fun cause => ⟨entry.2, entry.1, cause⟩

theorem readNumbered_eq_ok_iff {entry : String × Nat} {line : Line} :
    readNumbered entry = .ok line ↔ readLine entry.1 = .ok line :=
  mapError_eq_ok_iff

theorem readNumbered_eq_error_iff {entry : String × Nat} {e : ProgramError} :
    readNumbered entry = .error e ↔ readLine entry.1 = .error e.cause ∧ e.number = entry.2 ∧ e.text = entry.1 := by
  obtain ⟨number, text, cause⟩ := e
  rw [readNumbered]
  cases readLine entry.1 with
  | ok l => simp [Except.mapError]
  | error d => simp [Except.mapError, eq_comm, and_comm, and_assoc]

/-- The error is that of the first text that is neither blank nor a line. -/
def FirstUnread (number : ℕ) (texts : List String) (e : ProgramError) : Prop :=
  ∃ before after, texts = before ++ e.text :: after ∧ e.number = number + before.length ∧
    isBlank e.text = false ∧ readLine e.text = .error e.cause ∧
    ∀ text ∈ before, isBlank text = false → ∃ line, readLine text = .ok line

theorem firstUnread_cons_iff {number : ℕ} {text : String} {texts : List String} {e : ProgramError} :
    FirstUnread number (text :: texts) e ↔
      (isBlank text = false ∧ readNumbered (text, number) = .error e) ∨
        ((isBlank text = false → ∃ line, readLine text = .ok line) ∧ FirstUnread (number + 1) texts e) := by
  rw [readNumbered_eq_error_iff]
  constructor
  · rintro ⟨before, after, hsplit, hnumber, hblank, hfail, hbefore⟩
    cases before with
    | nil =>
        cases hsplit
        exact .inl ⟨hblank, hfail, hnumber, rfl⟩
    | cons _ before =>
        cases hsplit
        obtain ⟨htext, hbefore⟩ := List.forall_mem_cons.mp hbefore
        refine .inr ⟨htext, before, after, rfl, ?_, hblank, hfail, hbefore⟩
        rw [hnumber, List.length_cons]
        omega
  · rintro (⟨hblank, hfail, hnumber, htext⟩ | ⟨htext, before, after, rfl, hnumber, hblank, hfail, hbefore⟩)
    · cases htext
      exact ⟨[], texts, rfl, hnumber, hblank, hfail, by simp⟩
    · refine ⟨text :: before, after, rfl, ?_, hblank, hfail, List.forall_mem_cons.mpr ⟨htext, hbefore⟩⟩
      rw [hnumber, List.length_cons]
      omega

theorem mapM_readNumbered_eq_error_iff {number : ℕ} {texts : List String} {e : ProgramError} :
    (numbered number texts).mapM readNumbered = .error e ↔ FirstUnread number texts e := by
  induction texts generalizing number with
  | nil => simp [numbered, FirstUnread, pure, Except.pure]
  | cons text texts ih =>
      rw [numbered_cons, firstUnread_cons_iff, ← ih]
      cases isBlank text with
      | true => simp
      | false =>
          rw [if_neg Bool.false_ne_true, List.mapM_cons, bind_eq_error_iff]
          simp [bind_eq_error_iff, readNumbered_eq_ok_iff, pure, Except.pure]

/-- A reader brings nothing from one text to the next. -/
theorem linesFrom_fst (reader : Reader) (number : Nat) (texts : List String) :
    (reader.linesFrom number texts).1 = (numbered number texts).mapM readNumbered := by
  induction texts generalizing reader number with
  | nil => rfl
  | cons text texts ih =>
      rw [linesFrom, numbered_cons]
      cases hblank : isBlank text with
      | true => simpa using ih reader (number + 1)
      | false =>
          have hline : readLine text = (reader.line text).1 := rfl
          simp only [Bool.false_eq_true, ↓reduceIte, List.mapM_cons, readNumbered, hline]
          cases reader.line text with
          | mk result after =>
              cases result with
              | error cause => rfl
              | ok l =>
                  simp only [ih after (number + 1)]
                  rfl

theorem mapM_readNumbered_eq_ok_iff {entries : List (String × ℕ)} {lines : List Line} :
    entries.mapM readNumbered = .ok lines ↔
      List.Forall₂ (fun entry line => readLine entry.1 = .ok line) entries lines := by
  rw [mapM_eq_ok_iff, ← List.forall₂_eq_eq_eq, List.forall₂_map_left_iff, List.forall₂_map_right_iff]
  simp only [readNumbered_eq_ok_iff]

theorem lines_fst (reader : Reader) (texts : List String) :
    (reader.lines texts).1 = ((numbered 1 texts).mapM readNumbered).map Program.mk :=
  congrArg (Except.map Program.mk) (linesFrom_fst reader 1 texts)

theorem isBlank_iff {text : String} : isBlank text = true ↔ Text.trim text.toList = [] := by
  rw [isBlank, List.all_eq_true, Text.trim_eq_nil_iff]

/-- Whatever a reader did before, it reads the texts that are not blank one by one, and stops at the first
one that is no line. -/
theorem lines_fst_iff (reader : Reader) (texts : List String) :
    (∀ text, isBlank text = true ↔ Text.trim text.toList = []) ∧
      (∀ program, (reader.lines texts).1 = .ok program ↔
        List.Forall₂ (fun text line => readLine text = .ok line) (texts.filter fun text => !isBlank text)
          program.lines) ∧
      ∀ e, (reader.lines texts).1 = .error e ↔
        ∃ before after, texts = before ++ e.text :: after ∧ e.number = before.length + 1 ∧
          isBlank e.text = false ∧ readLine e.text = .error e.cause ∧
          ∀ text ∈ before, isBlank text = false → ∃ line, readLine text = .ok line := by
  refine ⟨fun _ => isBlank_iff, fun program => ?_, fun e => ?_⟩
  · obtain ⟨lines⟩ := program
    rw [lines_fst, map_eq_ok_iff]
    simp only [mapM_readNumbered_eq_ok_iff, Program.mk.injEq, exists_eq_right]
    rw [← map_fst_numbered 1, List.forall₂_map_left_iff]
  · rw [lines_fst, map_eq_error_iff, mapM_readNumbered_eq_error_iff]
    simp only [FirstUnread, Nat.add_comm 1]

end Reader

open Reader

/-- A text is a program if each line of it that is not blank can be read. -/
theorem readProgram_eq_ok_iff {text : String} {program : Program} :
    readProgram text = .ok program ↔
      List.Forall₂ (fun entry line => readLine entry.1 = .ok line) (numbered 1 (textLines text))
        program.lines := by
  obtain ⟨lines⟩ := program
  rw [readProgram, Reader.program, lines_fst, map_eq_ok_iff]
  simp only [mapM_readNumbered_eq_ok_iff, Program.mk.injEq, exists_eq_right]

/-- Otherwise the error names a text that cannot be read. -/
theorem exists_of_readProgram_eq_error {text : String} {e : ProgramError} (h : readProgram text = .error e) :
    (e.text, e.number) ∈ numbered 1 (textLines text) ∧ readLine e.text = .error e.cause := by
  rw [readProgram, Reader.program, lines_fst] at h
  cases hread : (numbered 1 (textLines text)).mapM readNumbered with
  | ok lines => rw [hread] at h; cases h
  | error d =>
      rw [hread] at h
      cases h
      obtain ⟨⟨t, n⟩, hmem, hfail⟩ := exists_of_mapM_eq_error hread
      obtain ⟨hcause, rfl, rfl⟩ := readNumbered_eq_error_iff.mp hfail
      exact ⟨hmem, hcause⟩

end GCode
