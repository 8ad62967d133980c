import GCode.Proofs.Grammar.Soundness

/-!
# Reading inside a line

A reader that starts a line never stands where a value or a word was asked for on its own, and the letter
of an open word is one that words can have. From where it stands some tokens always complete the line.
-/

namespace GCode.Reader

/-! ## The invariant -/

mutual
/-- The value goes into a line. -/
def Context.InLine : Context → Prop
  | .alone | .loneWord _ => False
  | .word _ c => c.toUpper ∈ wordLetters
  | .setting .. => True
  | .index use => use.InLine
  | .operand _ _ k => k.InLine

def IndexUse.InLine : IndexUse → Prop
  | .setting _ => True
  | .reference k => k.InLine
end

def State.InLine : State → Prop
  | .word | .wholeValue _ | .wholeWord _ => False
  | .value k | .openBracket _ k | .operator _ _ k | .slash _ k => k.InLine
  | .index use => use.InLine
  | _ => True

mutual
theorem Context.InLine.put {k : Context} {v : RealValue} {s : State} (h : k.InLine)
    (hs : k.put v = .ok s) : s.InLine := by
  match k with
  | .word line c =>
      obtain ⟨w, _, rfl⟩ := map_eq_ok_iff.mp hs
      trivial
  | .setting line i => cases hs; trivial
  | .index use =>
      obtain ⟨i, _, hput⟩ := bind_eq_ok_iff.mp hs
      simp only [Context.InLine] at h
      exact IndexUse.InLine.put h hput
  | .operand none purpose k => cases hs; simpa only [Context.InLine, State.InLine] using h
  | .operand (some _) purpose k => cases hs; simpa only [Context.InLine, State.InLine] using h

theorem IndexUse.InLine.put {use : IndexUse} {i : ParameterIndex} {s : State} (h : use.InLine)
    (hs : use.put i = .ok s) : s.InLine := by
  match use with
  | .setting line => cases hs; trivial
  | .reference k =>
      simp only [IndexUse.InLine] at h
      exact Context.InLine.put h hs
end

theorem Purpose.put_inLine {purpose : Purpose} {k : Context} {v : RealValue} {s : State} (h : k.InLine)
    (hs : purpose.put k v = .ok s) : s.InLine := by
  cases purpose with
  | arcTangent => cases hs; exact h
  | _ => exact h.put hs

theorem BeforeOperand.inLine {s : State} {k : Context} (h : BeforeOperand s k) (hs : s.InLine) :
    k.InLine := by
  cases h with
  | value => exact hs
  | index => simpa only [Context.InLine, State.InLine] using hs

end Reader

/-- A letter is one that the scanner lets through. -/
def Token.Lettered : Token → Prop
  | .letter c => c = 'N' ∨ c ∈ wordLetters
  | _ => True

namespace Reader

theorem State.InLine.step {s next : State} {t : Token} (h : s.InLine) (ht : t.Lettered)
    (hs : s.step t = .ok next) : next.InLine := by
  have hrule := State.rule_of_step hs
  generalize hresult : Except.ok next = result at hrule
  cases hrule with
  | lineNumber _ => obtain ⟨_, _, rfl⟩ := map_eq_ok_iff.mp hresult.symm; trivial
  | lineComment _ => obtain ⟨_, _, rfl⟩ := map_eq_ok_iff.mp hresult.symm; trivial
  | comment _ => obtain ⟨_, _, rfl⟩ := map_eq_ok_iff.mp hresult.symm; trivial
  | letter _ hc =>
      cases hresult
      have hmem := ht.resolve_left hc
      simpa only [InLine, Context.InLine, toUpper_of_mem_wordLetters hmem] using hmem
  | loneLetter _ => exact h.elim
  | number hoperand => exact (hoperand.inLine h).put hresult.symm
  | brackets hoperand => cases hresult; simpa only [InLine, Context.InLine] using hoperand.inLine h
  | reference hoperand => cases hresult; simpa only [InLine, IndexUse.InLine] using hoperand.inLine h
  | arcTangent hoperand => cases hresult; exact hoperand.inLine h
  | unary hoperand _ => cases hresult; exact hoperand.inLine h
  | name =>
      obtain ⟨_, _, hput⟩ := bind_eq_ok_iff.mp hresult.symm
      exact IndexUse.InLine.put h hput
  | leftBracket => cases hresult; simpa only [InLine, Context.InLine] using h
  | binary => cases hresult; simpa only [InLine, Context.InLine] using h
  | rightBracket => exact Purpose.put_inLine h hresult.symm
  | slash => cases hresult; exact h
  | _ => cases hresult; simp only [InLine, Context.InLine, IndexUse.InLine]

theorem State.InLine.steps {s last : State} {ts : List Token} (h : s.InLine) (ht : ∀ t ∈ ts, t.Lettered)
    (hs : s.steps ts = .ok last) : last.InLine := by
  induction ts generalizing s with
  | nil => cases hs; exact h
  | cons t ts ih =>
      obtain ⟨hthis, hrest⟩ := List.forall_mem_cons.mp ht
      rw [State.steps_cons] at hs
      obtain ⟨next, hstep, hsteps⟩ := bind_eq_ok_iff.mp hs
      exact ih (h.step hthis hstep) hrest hsteps

/-! ## Completing a line -/

def zero : Token := .number (.integer 0) .positiveInteger

/-- The tokens that lines are completed with. -/
def closers : List Token :=
  [zero, .operator (.binary .add), .operator (.binary .divide), .leftBracket, .rightBracket, .equals]

/-- Some of these tokens take the state to the end of a line. -/
def State.Completes (s : State) : Prop :=
  ∃ ts last line, (∀ t ∈ ts, t ∈ closers) ∧ s.steps ts = .ok last ∧ last.line? = some line

theorem State.completes_of_line? {s : State} {line : Line} (h : s.line? = some line) : s.Completes :=
  ⟨[], s, line, by simp, rfl, h⟩

theorem State.Completes.of_steps {s next : State} (h : next.Completes) (ts : List Token)
    (hts : ∀ t ∈ ts, t ∈ closers) (hsteps : s.steps ts = .ok next) : s.Completes := by
  obtain ⟨us, last, line, hus, hlast, hline⟩ := h
  refine ⟨ts ++ us, last, line, List.forall_mem_append.mpr ⟨hts, hus⟩, ?_, hline⟩
  rw [State.steps_append_of_ok hsteps, hlast]

def zeroBrackets : List Token :=
  [.leftBracket, zero, .rightBracket]

theorem brackets_zero : Grammar.Brackets zeroBrackets (.literal (.integer 0)) :=
  .fold (.number _ _) .nil

/-- A value that is no literal, `0 + 0`. -/
def sum : RealValue :=
  .binary .add (.literal (.integer 0)) (.literal (.integer 0))

def sumBrackets : List Token :=
  [.leftBracket, zero, .operator (.binary .add), zero, .rightBracket]

theorem brackets_sum : Grammar.Brackets sumBrackets sum :=
  .fold (.number _ _) (.cons (.number _ _) .nil)

theorem mem_closers_of_mem_sumBrackets : ∀ t ∈ sumBrackets, t ∈ closers := by
  simp [sumBrackets, closers]

/-- A value that is no literal passes every check, and the line can be completed behind it. -/
def Context.Completes (k : Context) : Prop :=
  ∀ v : RealValue, v.literal? = none → ∃ s, k.put v = .ok s ∧ s.Completes

theorem Context.Completes.slash {k : Context} (h : k.Completes) (first : RealValue) :
    (State.slash first k).Completes := by
  obtain ⟨s, hs, hcompletes⟩ := h (.binary .divide (.unary .arcTangent first) (.literal (.integer 0))) rfl
  apply hcompletes.of_steps (.operator (.binary .divide) :: zeroBrackets)
  · simp [closers, zeroBrackets]
  · rw [State.steps_cons_of_ok (n := .openBracket (.divisor first) k) rfl, brackets_zero.steps, Purpose.put, hs]
    rfl

theorem Context.Completes.purpose {k : Context} (h : k.Completes) (purpose : Purpose) {v : RealValue}
    (hv : v.literal? = none) : ∃ s, purpose.put k v = .ok s ∧ s.Completes := by
  cases purpose with
  | value => exact h v hv
  | argument op => exact h (.unary op v) rfl
  | arcTangent => exact ⟨.slash v k, rfl, h.slash v⟩
  | divisor first => exact h (.binary .divide (.unary .arcTangent first) v) rfl

theorem Context.Completes.rightBracket {k : Context} (h : k.Completes) (purpose : Purpose) {v : RealValue}
    (hv : v.literal? = none) : (State.operator v purpose k).Completes := by
  obtain ⟨s, hs, hcompletes⟩ := h.purpose purpose hv
  apply hcompletes.of_steps [.rightBracket]
  · simp [closers]
  · rw [Grammar.steps_rightBracket, hs]
    rfl

theorem State.completes_equals (line : Line) (i : ParameterIndex) : (State.equals line i).Completes := by
  have hnext : (State.segment (line.push (.setting ⟨i, .literal (.integer 0)⟩))).Completes :=
    completes_of_line? rfl
  exact hnext.of_steps [.equals, zero] (by simp [closers]) rfl

mutual
theorem Context.InLine.completes {k : Context} (h : k.InLine) : k.Completes := by
  intro v hv
  match k with
  | .word line c =>
      simp only [Context.InLine] at h
      have hmake := Word.make_eq_ok_iff (v := v).mpr ⟨h, rfl⟩
      exact ⟨_, map_eq_ok_iff.mpr ⟨_, hmake, rfl⟩, State.completes_of_line? rfl⟩
  | .setting line i => exact ⟨_, rfl, State.completes_of_line? rfl⟩
  | .index use =>
      simp only [Context.InLine] at h
      have hindex := ParameterIndex.ofValue_eq_ok_iff.mpr (.inr ⟨hv, rfl⟩)
      obtain ⟨s, hs, hcompletes⟩ := IndexUse.InLine.completes h (.expression v)
      refine ⟨s, ?_, hcompletes⟩
      rw [Context.put, hindex]
      exact hs
  | .operand none purpose k =>
      simp only [Context.InLine] at h
      exact ⟨_, rfl, h.completes.rightBracket purpose hv⟩
  | .operand (some (left, op)) purpose k =>
      simp only [Context.InLine] at h
      exact ⟨_, rfl, h.completes.rightBracket purpose rfl⟩

theorem IndexUse.InLine.completes {use : IndexUse} (h : use.InLine) (i : ParameterIndex) :
    ∃ s, use.put i = .ok s ∧ s.Completes := by
  match use with
  | .setting line => exact ⟨_, rfl, State.completes_equals line i⟩
  | .reference k =>
      simp only [IndexUse.InLine] at h
      exact Context.InLine.completes h (.parameter i) rfl
end

theorem Context.Completes.operand {k : Context} {s : State} (h : k.Completes) (hs : BeforeOperand s k) :
    s.Completes := by
  have hsum := Grammar.Value.brackets brackets_sum
  obtain ⟨next, hnext, hcompletes⟩ := h sum rfl
  apply hcompletes.of_steps sumBrackets mem_closers_of_mem_sumBrackets
  cases hs with
  | value => rw [hsum.steps, hnext, accept_ok]
  | index use => rw [Grammar.steps_index_of_value hsum, hsum.steps, hnext, accept_ok]

theorem Context.Completes.openBracket {k : Context} (h : k.Completes) (purpose : Purpose) :
    (State.openBracket purpose k).Completes := by
  obtain ⟨s, hs, hcompletes⟩ := h.purpose purpose (v := sum) rfl
  apply hcompletes.of_steps sumBrackets mem_closers_of_mem_sumBrackets
  rw [brackets_sum.steps, hs, accept_ok]

theorem Context.Completes.operator {k : Context} (h : k.Completes) (left : RealValue) (purpose : Purpose) :
    (State.operator left purpose k).Completes := by
  have hsum : (State.operator (.binary .add left (.literal (.integer 0))) purpose k).Completes :=
    h.rightBracket purpose rfl
  exact hsum.of_steps [.operator (.binary .add), zero] (by simp [closers]) rfl

/-- Inside a line, a line can be completed. -/
theorem State.InLine.completes {s : State} (h : s.InLine) : s.Completes := by
  cases s with
  | start | marked | segment | finished => exact completes_of_line? rfl
  | lineNumber line =>
      have hzero : Line.isLineNumber (Number.integer 0).value = true := by decide +kernel
      have hset := (@Line.setNumber_eq_ok_iff line _ _).mpr ⟨hzero, rfl⟩
      have hstep : (lineNumber line).step zero = .ok (.segment _) :=
        accept_eq_ok_iff.mpr (map_eq_ok_iff.mpr ⟨_, hset, rfl⟩)
      exact (completes_of_line? rfl).of_steps [zero] (by simp [closers]) (steps_cons_of_ok hstep [])
  | equals line i => exact completes_equals line i
  | value k => exact (Context.InLine.completes h).operand (.value k)
  | index use =>
      have hindex : (Context.index use).InLine := by simpa only [Context.InLine, InLine] using h
      exact hindex.completes.operand (.index use)
  | openBracket purpose k => exact (Context.InLine.completes h).openBracket purpose
  | operator left purpose k => exact (Context.InLine.completes h).operator left purpose
  | slash first k => exact (Context.InLine.completes h).slash first
  | word | wholeValue | wholeWord => exact h.elim

end GCode.Reader
