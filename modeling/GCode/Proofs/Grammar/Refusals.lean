import GCode.Proofs.Grammar.InLine
import GCode.Proofs.Shape

/-!
# Refused lines

At which token the reader stops, and which part of the line is at fault if it is not the token.
-/

namespace GCode

/-! ## Numbers of lines -/

theorem Decimal.isNegative_toFloat (negative : Bool) (d : Decimal) :
    Binary64.isNegative (d.toFloat negative) = negative :=
  Binary64.isNegative_ofMagnitude (Binary64.nearestMagnitude_le_infinity _ _)

theorem Numeral.isNegative_number {n : Numeral} (h : n.classify ≠ .real) :
    Binary64.isNegative n.number.value = false := by
  rw [classify] at h
  cases hfraction : n.fraction.isNone with
  | true =>
      have hsign : n.isNegative = false := by simpa [hfraction] using h
      rw [number]
      split
      · rename_i hfits
        simp only [Bool.and_eq_true, decide_eq_true_eq] at hfits
        obtain ⟨⟨_, hlow⟩, hhigh⟩ := hfits
        have hinteger : 0 ≤ n.integer := by simp [integer, hsign]
        have hlt : n.integer < 2 ^ 63 := by
          have hmax : Int64.maxValue.toInt = 2 ^ 63 - 1 := by decide
          omega
        rw [Number.value, Binary64.isNegative_ofInt, Int64.toInt_ofInt_of_le hlow hlt]
        exact decide_eq_false (by omega)
      · rw [Number.value, float, Decimal.isNegative_toFloat, hsign]
  | false =>
      have hfloat : Binary64.isNegative n.float = false := by
        simp only [hfraction, Bool.false_eq_true, ↓reduceIte] at h
        by_contra hneg
        simp [hneg] at h
      simpa [number, hfraction, Number.value] using hfloat

/-- Of the numbers that can stand behind `N`, only the infinite one is no line number. -/
theorem Numeral.magnitude_number {n : Numeral} (h : n.classify ≠ .real)
    (hx : Line.isLineNumber n.number.value = false) :
    Binary64.magnitude n.number.value = Binary64.infinity := by
  have hnan : Binary64.magnitude n.number.value ≤ Binary64.infinity := by
    simpa [Binary64.isNaN] using n.isNaN_number
  have hfinite : Binary64.infinity ≤ Binary64.magnitude n.number.value := by
    simpa [Line.isLineNumber, isNegative_number h, Binary64.isFinite] using hx
  omega

/-! ## Refused parts -/

/-- The part that is refused is one of the tokens. -/
def FieldError.Of (ts : List Token) : FieldError → Prop
  | .invalidParameterIndex x => ∃ n cls, .number n cls ∈ ts ∧ x = n.value ∧ n.index? = none
  | .commentContainsParenthesis text => .lineComment text ∈ ts ∧ '(' ∈ text.toList
  | .invalidLineNumber x =>
    (∃ n cls, .number n cls ∈ ts ∧ x = n.value) ∧ Binary64.magnitude x = Binary64.infinity
  | .invalidLetter _ | .invalidParameterName _ => False

theorem FieldError.Of.append {ts : List Token} {e : FieldError} (h : e.Of ts) (us : List Token) :
    e.Of (ts ++ us) := by
  cases e with
  | invalidParameterIndex x =>
      obtain ⟨n, cls, hmem, hx⟩ := h
      exact ⟨n, cls, List.mem_append_left us hmem, hx⟩
  | commentContainsParenthesis text => exact ⟨List.mem_append_left us h.1, h.2⟩
  | invalidLineNumber x =>
      obtain ⟨⟨n, cls, hmem, hx⟩, hinfinite⟩ := h
      exact ⟨⟨n, cls, List.mem_append_left us hmem, hx⟩, hinfinite⟩
  | invalidLetter _ => exact h
  | invalidParameterName _ => exact h

theorem Token.Spelled.lettered {t : Token} {cs : List Char} (h : t.Spelled cs) : t.Lettered := by
  cases h with
  | letter hc => exact hc
  | _ => trivial

theorem Operands.eq_nil_of_fold {first : RealValue} {operands : Operands} {n : Number}
    (h : Operands.fold first operands = .literal n) : operands = [] := by
  rcases List.eq_nil_or_concat operands with hnil | ⟨operands, ⟨op, v⟩, rfl⟩
  · exact hnil
  · rw [List.concat_eq_append, fold_concat] at h
    cases h

namespace Grammar

mutual
/-- The number of a literal is one of the tokens that derive it. -/
theorem Value.number_mem {ts v n} (h : Value ts v) (hv : v = .literal n) : ∃ cls, .number n cls ∈ ts := by
  match h with
  | .number _ cls => cases hv; exact ⟨cls, List.mem_cons_self⟩
  | .brackets hb => exact hb.number_mem hv
  | .parameter _ => cases hv
  | .unary _ _ => cases hv
  | .arcTangent _ _ => cases hv

theorem Brackets.number_mem {ts v n} (h : Brackets ts v) (hv : v = .literal n) :
    ∃ cls, .number n cls ∈ ts := by
  match h with
  | .fold hfirst htail =>
      cases Operands.eq_nil_of_fold hv
      obtain ⟨cls, hmem⟩ := hfirst.number_mem hv
      exact ⟨cls, by simp [hmem]⟩
end

end Grammar

namespace Reader

open Grammar (Reached)

mutual
/-- Inside a line, the only value that is refused is a literal that can be no index. -/
theorem Context.InLine.put_error {k : Context} {v : RealValue} {e : FieldError} (h : k.InLine)
    (he : k.put v = .error e) :
    ∃ n, v = .literal n ∧ n.index? = none ∧ e = .invalidParameterIndex n.value := by
  match k with
  | .word line c =>
      simp only [Context.InLine] at h
      have hmake := map_eq_error_iff.mp he
      rw [Word.make_eq_ok_iff.mpr ⟨h, rfl⟩] at hmake
      cases hmake
  | .setting line i => cases he
  | .index use =>
      simp only [Context.InLine] at h
      rcases bind_eq_error_iff.mp he with hvalue | ⟨i, _, hput⟩
      · exact ParameterIndex.exists_literal_of_ofValue_eq_error hvalue
      · exact (IndexUse.InLine.put_ne_error h hput).elim
  | .operand none purpose k => cases he
  | .operand (some _) purpose k => cases he

theorem IndexUse.InLine.put_ne_error {use : IndexUse} {i : ParameterIndex} {e : FieldError}
    (h : use.InLine) : use.put i ≠ .error e := by
  intro he
  match use with
  | .setting line => cases he
  | .reference k =>
      simp only [IndexUse.InLine] at h
      obtain ⟨n, hn, _⟩ := Context.InLine.put_error h he
      cases hn
end

theorem Purpose.put_error {purpose : Purpose} {k : Context} {v : RealValue} {e : FieldError} (h : k.InLine)
    (he : purpose.put k v = .error e) :
    ∃ n, v = .literal n ∧ n.index? = none ∧ e = .invalidParameterIndex n.value := by
  cases purpose with
  | value => exact h.put_error he
  | arcTangent => cases he
  | argument op =>
      obtain ⟨n, hn, _⟩ := h.put_error he
      cases hn
  | divisor first =>
      obtain ⟨n, hn, _⟩ := h.put_error he
      cases hn

/-- A part of a line that is refused is one of the tokens up to the last one. -/
theorem State.InLine.fieldError {s : State} {ts : List Token} {t : Token} {cs : List Char} {e : FieldError}
    (h : s.InLine) (hreached : Reached ts s) (ht : t.Spelled cs) (hs : s.step t = .error (.field e)) :
    e.Of (ts ++ [t]) := by
  have hrule := State.rule_of_step_error hs
  generalize hresult : Except.error e = result at hrule
  cases hrule with
  | lineNumber hcls =>
      obtain ⟨hx, rfl⟩ := Line.setNumber_eq_error_iff.mp (map_eq_error_iff.mp hresult.symm)
      cases ht with
      | number _ => exact ⟨⟨_, _, List.mem_append_right ts List.mem_cons_self, rfl⟩, Numeral.magnitude_number hcls hx⟩
  | lineComment _ =>
      obtain ⟨hl, rfl⟩ := Line.setComment_eq_error_iff.mp (map_eq_error_iff.mp hresult.symm)
      exact ⟨List.mem_append_right ts List.mem_cons_self, hl⟩
  | comment _ =>
      cases ht with
      | comment hl hr =>
          rw [Comment.make_eq_ok_iff.mpr ⟨hl, hr, rfl⟩] at hresult
          cases hresult
  | number hoperand =>
      obtain ⟨n, hn, hindex, rfl⟩ := (hoperand.inLine h).put_error hresult.symm
      cases hn
      exact ⟨_, _, List.mem_append_right ts List.mem_cons_self, rfl, hindex⟩
  | name =>
      cases ht with
      | name hne hall =>
          rw [ParameterIndex.ofName_eq_ok_iff.mpr ⟨hne, hall, rfl⟩] at hresult
          exact (IndexUse.InLine.put_ne_error h hresult.symm).elim
  | rightBracket =>
      obtain ⟨n, hn, hindex, rfl⟩ := Purpose.put_error h hresult.symm
      cases hreached with
      | operator _ hvalue _ =>
          cases Operands.eq_nil_of_fold hn
          obtain ⟨cls, hmem⟩ := hvalue.number_mem hn
          exact ⟨n, cls, by simp [hmem], rfl, hindex⟩
  | _ => cases hresult

/-! ## Runs -/

namespace State

/-- A run stops at a token that the state behind the tokens before it refuses. -/
theorem exists_of_run_eq_error {s : State} {tokens : List PlacedToken} {e : ReadError}
    (h : s.run tokens = .error e) :
    ∃ before found after last, tokens = before ++ found :: after ∧
      s.steps (before.map (·.token)) = .ok last ∧
      (last.step found.token = .error .unexpected ∧ e = .unexpectedToken found last.expected ∨
        ∃ d, last.step found.token = .error (.field d) ∧ e = .field d) := by
  induction tokens generalizing s with
  | nil => cases h
  | cons t tokens ih =>
      rw [run] at h
      cases hstep : s.step t.token with
      | ok next =>
          rw [hstep] at h
          obtain ⟨before, found, after, last, rfl, hsteps, hlast⟩ := ih h
          refine ⟨t :: before, found, after, last, rfl, ?_, hlast⟩
          rw [List.map_cons, steps_cons_of_ok hstep, hsteps]
      | error refusal =>
          rw [hstep] at h
          refine ⟨[], t, tokens, s, rfl, rfl, ?_⟩
          cases refusal with
          | unexpected => cases h; exact .inl ⟨hstep, rfl⟩
          | field d => cases h; exact .inr ⟨d, hstep, rfl⟩

theorem exists_of_read_eq_error {α : Type} {result? : State → Option α} {length : ℕ} {s : State}
    {tokens : List PlacedToken} {e : ReadError} (h : s.read result? length tokens = .error e) :
    s.run tokens = .error e ∨ ∃ last, s.steps (tokens.map (·.token)) = .ok last ∧
      result? last = none ∧ e = .unexpectedEnd length last.expected := by
  rcases bind_eq_error_iff.mp h with hrun | ⟨last, hrun, hend⟩
  · exact .inl hrun
  · refine .inr ⟨last, run_eq_ok_iff.mp hrun, ?_⟩
    cases hresult : result? last with
    | some a => rw [hresult] at hend; cases hend
    | none => rw [hresult] at hend; cases hend; exact ⟨rfl, rfl⟩

end State

end Reader

end GCode
