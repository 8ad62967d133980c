import GCode.Proofs.Program.Reading
import GCode.Proofs.Scanning.Cutting

/-!
# Scanners and readers that are used again

A scanner that has failed, or that was left in the middle of a text, takes the next text as a new scanner
does. A reader keeps nothing but its scanner.
-/

namespace GCode

namespace Scanner

/-! ## Histories -/

inductive Call where
  | next
  | input (text : String)
  | tokenize (text : String)

def perform (scanner : Scanner) : Call → Scanner
  | .next => scanner.next.2
  | .input text => scanner.input text
  | .tokenize text => (scanner.tokenize text).2

/-- The scanner of which all this was asked since it was new. -/
def after (calls : List Call) : Scanner :=
  calls.foldl perform {}

theorem after_append (before more : List Call) :
    after (before ++ more) = more.foldl perform (after before) :=
  List.foldl_append

/-! ## Taking tokens one by one -/

/-- What comes together if the next token is asked for until there is none, or an error. -/
inductive Collects : Scanner → Except LexicalError (List PlacedToken) → Prop where
  | stop {scanner} : scanner.next.1 = none → Collects scanner (.ok [])
  | fail {scanner e} : scanner.next.1 = some (.error e) → Collects scanner (.error e)
  | take {scanner token result} : scanner.next.1 = some (.ok token) → Collects scanner.next.2 result →
      Collects scanner (result.map (token :: ·))

variable {scanner : Scanner} {length : Nat} {cursor : Cursor}

theorem next_of_none (h : cursor.next? = none) :
    next ⟨length, cursor, false⟩ = (none, ⟨length, cursor, true⟩) := by
  simp [next, h]

theorem next_of_error {e : LexicalError} (h : cursor.next? = some (.error e)) :
    next ⟨length, cursor, false⟩ = (some (.error e), ⟨length, cursor, true⟩) := by
  simp [next, h]

theorem next_of_ok {token : PlacedToken} {moved : Cursor} (h : cursor.next? = some (.ok (token, moved))) :
    next ⟨length, cursor, false⟩ = (some (.ok token), ⟨length, moved, false⟩) := by
  simp [next, h]

/-- The tokens of a text come together one by one. -/
theorem collects_tokens (length : Nat) (cursor : Cursor) :
    Collects ⟨length, cursor, false⟩ cursor.tokens := by
  induction cursor using Cursor.run.induct with
  | case1 cursor h =>
      rw [Cursor.tokens, Cursor.run_of_none h]
      exact .stop (by rw [next_of_none h])
  | case2 cursor e h =>
      rw [Cursor.tokens, Cursor.run_of_error h]
      exact .fail (by rw [next_of_error h])
  | case3 cursor token moved h _ _ _ ih =>
      have hnext : next ⟨length, cursor, false⟩ = (some (.ok token), ⟨length, moved, false⟩) := next_of_ok h
      have htokens : cursor.tokens = moved.tokens.map (token :: ·) := by
        rw [Cursor.tokens, Cursor.tokens, Cursor.run_of_ok h]
        cases moved.run with
        | mk tokens failure => cases failure <;> rfl
      rw [htokens]
      exact .take (by rw [hnext]) (by rwa [hnext])

/-- Nothing else comes together. -/
theorem Collects.unique {result result' : Except LexicalError (List PlacedToken)}
    (h : scanner.Collects result) (h' : scanner.Collects result') : result = result' := by
  -- both ask for the same next token, and its kind leaves one rule
  induction h generalizing result' with
  | stop hnext =>
      cases h' with
      | stop _ => rfl
      | fail hnext' => cases hnext.symm.trans hnext'
      | take hnext' _ => cases hnext.symm.trans hnext'
  | fail hnext =>
      cases h' with
      | stop hnext' => cases hnext.symm.trans hnext'
      | fail hnext' => cases hnext.symm.trans hnext'; rfl
      | take hnext' _ => cases hnext.symm.trans hnext'
  | take hnext _ ih =>
      cases h' with
      | stop hnext' => cases hnext.symm.trans hnext'
      | fail hnext' => cases hnext.symm.trans hnext'
      | take hnext' hrest =>
          cases hnext.symm.trans hnext'
          rw [ih hrest]

theorem collects_input_iff (scanner : Scanner) (text : String)
    (result : Except LexicalError (List PlacedToken)) :
    (scanner.input text).Collects result ↔ result = GCode.tokenize text := by
  have htokens : (scanner.input text).Collects (GCode.tokenize text) := collects_tokens _ _
  constructor
  · exact fun h => h.unique htokens
  · rintro rfl
    exact htokens

/-! ## Staying at the end -/

theorem halted_next (h : ∀ token, scanner.next.1 ≠ some (.ok token)) : scanner.next.2.halted = true := by
  obtain ⟨length, cursor, halted⟩ := scanner
  cases halted with
  | true => rw [next_of_halted rfl]
  | false =>
      cases hnext : cursor.next? with
      | none => rw [next_of_none hnext]
      | some answer =>
          cases answer with
          | error e => rw [next_of_error hnext]
          | ok moved => exact absurd (by rw [next_of_ok hnext]) (h moved.1)

theorem foldl_perform_of_halted {calls : List Call} (h : scanner.halted = true)
    (hcalls : ∀ call ∈ calls, call = .next) : calls.foldl perform scanner = scanner := by
  induction calls with
  | nil => rfl
  | cons call calls ih =>
      obtain ⟨hcall, hrest⟩ := List.forall_mem_cons.mp hcalls
      rw [hcall, List.foldl_cons, perform, next_of_halted h]
      exact ih hrest

/-- A scanner without a new text answers nothing after an error or the end. -/
theorem next_after_end {before more : List Call}
    (h : ∀ token, (after before).next.1 ≠ some (.ok token)) (hmore : ∀ call ∈ more, call = .next) :
    (after (before ++ .next :: more)).next.1 = none := by
  -- the scanner halts here, and asking again changes nothing
  have hhalted := halted_next h
  rw [after_append, List.foldl_cons, perform, foldl_perform_of_halted hhalted hmore, next_of_halted hhalted]

end Scanner

namespace Reader

inductive Call where
  | line (text : String)
  | lines (texts : List String)
  | program (text : String)
  | value (text : String)
  | word (text : String)

def perform (reader : Reader) : Call → Reader
  | .line text => (reader.line text).2
  | .lines texts => (reader.lines texts).2
  | .program text => (reader.program text).2
  | .value text => (reader.value text).2
  | .word text => (reader.word text).2

/-- The reader of which all this was asked since it was new. -/
def after (calls : List Call) : Reader :=
  calls.foldl perform {}

/-- What is read depends on the tokens alone, and they come from the new text. -/
theorem read_fst {α : Type} (reader : Reader) (state : State) (result? : State → Option α) (text : String) :
    (reader.read state result? text).1 = (({} : Reader).read state result? text).1 := rfl

theorem lines_fst_eq (reader : Reader) (texts : List String) : (reader.lines texts).1 = readLines texts := by
  rw [readLines, lines_fst, lines_fst]

end Reader

/-- Whatever was asked of a scanner before, the tokens of a text are its tokens, taken one by one or all
together. After an error or the end there is nothing more of a text. A reader reads every text as a new
one does. -/
theorem reused_agree :
    (∀ (before : List Scanner.Call) (text : String),
      (∀ result, ((Scanner.after before).input text).Collects result ↔ result = tokenize text) ∧
        ((Scanner.after before).tokenize text).1 = tokenize text) ∧
    (∀ before more : List Scanner.Call, (∀ token, (Scanner.after before).next.1 ≠ some (.ok token)) →
      (∀ call ∈ more, call = .next) → (Scanner.after (before ++ .next :: more)).next.1 = none) ∧
    ∀ before : List Reader.Call,
      (∀ text, ((Reader.after before).line text).1 = readLine text) ∧
      (∀ texts, ((Reader.after before).lines texts).1 = readLines texts) ∧
      (∀ text, ((Reader.after before).program text).1 = readProgram text) ∧
      (∀ text, ((Reader.after before).value text).1 = readValue text) ∧
      ∀ text, ((Reader.after before).word text).1 = readWord text := by
  refine ⟨fun before text => ⟨?_, ?_⟩, fun before more => Scanner.next_after_end, fun before => ?_⟩
  · exact Scanner.collects_input_iff _ text
  · exact Scanner.tokenize_fst _ text
  · have hlines := (Reader.after before).lines_fst_eq
    exact ⟨fun text => Reader.read_fst _ _ _ _, hlines, fun text => hlines (textLines text),
      fun text => Reader.read_fst _ _ _ _, fun text => Reader.read_fst _ _ _ _⟩

/-- The third answer is an error, and the rest of the text is never reached. -/
theorem reused_agree_error :
    (Scanner.after [.tokenize "X1", .input "G0 @ X1", .next, .next]).next.1 =
        some (.error (.unexpectedCharacter 3 '@')) ∧
      (Scanner.after [.tokenize "X1", .input "G0 @ X1", .next, .next, .next, .next]).next.1 = none ∧
      ((Scanner.after [.input "G0 @ X1", .next, .next, .next]).tokenize "m3").1 = tokenize "m3" := by
  have herror : (Scanner.after [.tokenize "X1", .input "G0 @ X1", .next, .next]).next.1 =
      some (.error (.unexpectedCharacter 3 '@')) := by
    decide +kernel
  obtain ⟨hcollect, hend, -⟩ := reused_agree
  refine ⟨herror, ?_, (hcollect _ "m3").2⟩
  apply hend [.tokenize "X1", .input "G0 @ X1", .next, .next] [.next]
  · intro token hok
    cases herror.symm.trans hok
  · simp

end GCode
