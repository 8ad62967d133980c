import GCode.Proofs.Grammar.Basic
import GCode.Proofs.Result

/-!
# Runs of the reader over plain tokens

Whether a text is accepted does not depend on where its tokens stand. `State.steps` takes tokens
without positions, and the checks of the parts of a line are stated here once.
-/

namespace GCode

/-! ## The checks of the parts -/

theorem Number.index?_eq_some_iff {n : Number} {k : UInt32} :
    n.index? = some k ↔ n.whole? = some (k.toNat : Int) := by
  simp only [index?, Option.bind_eq_some_iff, indexOf?, Option.ite_none_right_eq_some,
    Option.some.injEq]
  have hk := k.toNat_lt
  constructor
  · rintro ⟨m, hm, hr, rfl⟩
    rw [hm, UInt32.toNat_ofNat_of_lt' (by omega)]
    simp only [Option.some.injEq]
    omega
  · intro h
    refine ⟨_, h, by simp only [UInt32.size]; omega, ?_⟩
    simp

theorem ParameterIndex.ofValue_eq_ok_iff {v : RealValue} {i : ParameterIndex} :
    ofValue v = .ok i ↔
      (∃ n k, v = .literal n ∧ n.whole? = some (k.toNat : Int) ∧ i = .number k) ∨
        (v.literal? = none ∧ i = .expression v) := by
  cases v with
  | literal n =>
      cases h : n.index? with
      | none =>
          have hn : ∀ k : UInt32, n.whole? ≠ some (k.toNat : Int) := by
            intro k hk
            rw [Number.index?_eq_some_iff.mpr hk] at h
            cases h
          simp only [ofValue, h, RealValue.literal?]
          constructor
          · intro h'; cases h'
          · rintro (⟨m, k, hm, hk, _⟩ | ⟨h', _⟩)
            · cases hm; exact absurd hk (hn k)
            · cases h'
      | some k =>
          have hk := Number.index?_eq_some_iff.mp h
          simp only [ofValue, h, RealValue.literal?]
          constructor
          · intro h'; cases h'; exact Or.inl ⟨n, k, rfl, hk, rfl⟩
          · rintro (⟨m, j, hm, hj, rfl⟩ | ⟨h', _⟩)
            · cases hm
              rw [Number.index?_eq_some_iff.mpr hj] at h
              cases h; rfl
            · cases h'
  | _ => simp [ofValue, RealValue.literal?, eq_comm]

theorem ParameterIndex.ofName_eq_ok_iff {text : String} {i : ParameterIndex} :
    ofName text = .ok i ↔
      text ≠ "" ∧ (∀ c ∈ text.toList, isNameChar c = true) ∧ i = .named text := by
  by_cases h : (text.toList.all isNameChar && !text.isEmpty) = true
  · have h' := h
    simp only [Bool.and_eq_true, List.all_eq_true, Bool.not_eq_true', String.isEmpty_eq_false_iff] at h'
    simp only [ofName, h, ↓reduceIte, Except.ok.injEq]
    constructor
    · rintro rfl; exact ⟨h'.2, h'.1, rfl⟩
    · rintro ⟨_, _, rfl⟩; rfl
  · simp only [ofName, h, Bool.false_eq_true, ↓reduceIte, reduceCtorEq, false_iff]
    rintro ⟨hne, hall, _⟩
    apply h
    simp only [Bool.and_eq_true, List.all_eq_true, Bool.not_eq_true', String.isEmpty_eq_false_iff]
    exact ⟨hall, hne⟩

theorem toUpper_of_mem_wordLetters {c : Char} (h : c ∈ wordLetters) : c.toUpper = c := by
  have hall : wordLetters.all (fun c => c.toUpper == c) = true := by decide
  simpa using List.all_eq_true.mp hall c h

theorem Word.make_eq_ok_iff {c : Char} {v : RealValue} {w : Word} :
    make c v = .ok w ↔ c.toUpper ∈ wordLetters ∧ w = ⟨c.toUpper, v⟩ := by
  by_cases h : c.toUpper ∈ wordLetters
  · simp [make, h, eq_comm]
  · simp [make, h]

theorem Word.make_eq_error_iff {c : Char} {v : RealValue} {e : FieldError} :
    make c v = .error e ↔ c.toUpper ∉ wordLetters ∧ e = .invalidLetter c.toUpper := by
  by_cases h : c.toUpper ∈ wordLetters
  · simp [make, h]
  · simp [make, h, eq_comm]

theorem checkComment_eq_ok_iff {forbidden : List Char} {text : String} :
    checkComment forbidden text = .ok () ↔ ∀ c ∈ forbidden, c ∉ text.toList := by
  by_cases h : (text.toList.any forbidden.contains) = true
  · simp only [checkComment, h, ↓reduceIte, reduceCtorEq, false_iff]
    simp only [List.any_eq_true, List.contains_eq_mem, decide_eq_true_eq] at h
    obtain ⟨c, hc, hf⟩ := h
    exact fun hn => hn c hf hc
  · simp only [checkComment, h, Bool.false_eq_true, ↓reduceIte, true_iff]
    simp only [List.any_eq_true, List.contains_eq_mem, decide_eq_true_eq, not_exists, not_and] at h
    exact fun c hf hc => h c hc hf

theorem Comment.make_eq_ok_iff {text : String} {c : Comment} :
    make text = .ok c ↔ '(' ∉ text.toList ∧ ')' ∉ text.toList ∧ c = ⟨text⟩ := by
  rw [make, bind_eq_ok_iff]
  constructor
  · rintro ⟨_, h, hc⟩
    cases hc
    have := checkComment_eq_ok_iff.mp h
    simp only [List.mem_cons, List.not_mem_nil, or_false, forall_eq_or_imp, forall_eq] at this
    exact ⟨this.1, this.2, rfl⟩
  · rintro ⟨hl, hr, rfl⟩
    exact ⟨(), checkComment_eq_ok_iff.mpr (by simp [hl, hr]), rfl⟩

theorem Line.setComment_eq_ok_iff {line next : Line} {text : String} :
    line.setComment (some text) = .ok next ↔
      '(' ∉ text.toList ∧ next = { line with comment := some text } := by
  rw [setComment, bind_eq_ok_iff]
  constructor
  · rintro ⟨_, h, hc⟩
    cases hc
    exact ⟨checkComment_eq_ok_iff.mp h '(' (by simp), rfl⟩
  · rintro ⟨hl, rfl⟩
    exact ⟨(), checkComment_eq_ok_iff.mpr (by simp [hl]), rfl⟩

theorem Line.setNumber_eq_ok_iff {line next : Line} {x : Float} :
    line.setNumber (some x) = .ok next ↔
      isLineNumber x = true ∧ next = { line with number := some (Number.normalized x) } := by
  by_cases h : isLineNumber x = true
  · simp [setNumber, h, eq_comm]
  · simp [setNumber, h]

theorem ParameterIndex.exists_literal_of_ofValue_eq_error {v : RealValue} {e : FieldError}
    (h : ofValue v = .error e) :
    ∃ n, v = .literal n ∧ n.index? = none ∧ e = .invalidParameterIndex n.value := by
  cases v with
  | literal n =>
      cases hindex : n.index? with
      | none =>
          simp only [ofValue, hindex, Except.error.injEq] at h
          exact ⟨n, rfl, hindex, h.symm⟩
      | some k => simp [ofValue, hindex] at h
  | _ => cases h

theorem Comment.make_eq_error_iff {text : String} {e : FieldError} :
    make text = .error e ↔ ('(' ∈ text.toList ∨ ')' ∈ text.toList) ∧ e = .commentContainsParenthesis text := by
  by_cases h : '(' ∈ text.toList ∨ ')' ∈ text.toList
  · have hcheck : checkComment ['(', ')'] text = .error (.commentContainsParenthesis text) := by
      rw [checkComment, if_pos]
      simp only [List.any_eq_true, List.contains_eq_mem, decide_eq_true_eq]
      rcases h with hmem | hmem
      · exact ⟨_, hmem, by simp⟩
      · exact ⟨_, hmem, by simp⟩
    rw [make, bind_eq_error_iff, hcheck]
    simp [h, eq_comm]
  · rw [not_or] at h
    rw [make_eq_ok_iff.mpr ⟨h.1, h.2, rfl⟩]
    simp [h]

theorem Line.setComment_eq_error_iff {line : Line} {text : String} {e : FieldError} :
    line.setComment (some text) = .error e ↔
      '(' ∈ text.toList ∧ e = .commentContainsParenthesis text := by
  by_cases h : '(' ∈ text.toList
  · have hcheck : checkComment ['('] text = .error (.commentContainsParenthesis text) := by
      simpa [checkComment] using h
    rw [setComment, bind_eq_error_iff, hcheck]
    simp [h, eq_comm]
  · rw [setComment_eq_ok_iff.mpr ⟨h, rfl⟩]
    simp [h]

theorem Line.setNumber_eq_error_iff {line : Line} {x : Float} {e : FieldError} :
    line.setNumber (some x) = .error e ↔ isLineNumber x = false ∧ e = .invalidLineNumber x := by
  by_cases h : isLineNumber x = true
  · simp [setNumber, h]
  · simp [setNumber, h, eq_comm]

namespace Reader

@[simp] theorem accept_ok (s : State) : accept (.ok s) = .ok s := rfl

theorem accept_eq_ok_iff {r : Except FieldError State} {s : State} : accept r = .ok s ↔ r = .ok s :=
  mapError_eq_ok_iff

namespace State

/-- Takes tokens one after the other. -/
def steps (s : State) (ts : List Token) : Except Refusal State :=
  ts.foldlM step s

@[simp] theorem steps_nil (s : State) : s.steps [] = .ok s := rfl

theorem steps_cons (s : State) (t : Token) (ts : List Token) :
    s.steps (t :: ts) = s.step t >>= fun next => next.steps ts := by
  simp [steps]

theorem steps_append (s : State) (ts us : List Token) :
    s.steps (ts ++ us) = s.steps ts >>= fun next => next.steps us := by
  simp [steps]

theorem steps_cons_of_ok {s n : State} {t : Token} (h : s.step t = .ok n) (ts : List Token) :
    s.steps (t :: ts) = n.steps ts := by
  rw [steps_cons, h]; rfl

theorem steps_append_of_ok {s n : State} {ts : List Token} (h : s.steps ts = .ok n)
    (us : List Token) : s.steps (ts ++ us) = n.steps us := by
  rw [steps_append, h]; rfl

/-- Positions only show in errors. -/
theorem run_eq_ok_iff {s last : State} {tokens : List PlacedToken} :
    s.run tokens = .ok last ↔ s.steps (tokens.map (·.token)) = .ok last := by
  induction tokens generalizing s with
  | nil => simp [run]
  | cons t ts ih =>
      rw [List.map_cons, steps_cons, run]
      cases h : s.step t.token with
      | ok next => exact ih
      | error e => cases e <;> simp [bind, Except.bind]

theorem read_eq_ok_iff {α : Type} {result? : State → Option α} {length : Nat} {s : State}
    {tokens : List PlacedToken} {a : α} :
    s.read result? length tokens = .ok a ↔
      ∃ last, s.steps (tokens.map (·.token)) = .ok last ∧ result? last = some a := by
  rw [read, bind_eq_ok_iff]
  simp only [run_eq_ok_iff]
  constructor
  · rintro ⟨last, hl, h⟩
    cases hr : result? last with
    | none => rw [hr] at h; cases h
    | some b => rw [hr] at h; cases h; exact ⟨last, hl, hr⟩
  · rintro ⟨last, hl, h⟩
    exact ⟨last, hl, by rw [h]⟩

end State

end Reader

end GCode
