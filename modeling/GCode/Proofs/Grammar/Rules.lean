import GCode.Proofs.Grammar.Completeness

/-!
# What a step can do

A rule takes one token in one state, and says where it goes or which check decides where. A token that no
rule takes is unexpected.
-/

namespace GCode.Reader

open Grammar (BeforeSegment)

/-- The states in which the number of the line may come. -/
inductive BeforeNumber : State → Line → Prop where
  | start : BeforeNumber .start {}
  | marked (line : Line) : BeforeNumber (.marked line) line

/-- The states in which a value may start, with the context it goes into. -/
inductive BeforeOperand : State → Context → Prop where
  | value (k : Context) : BeforeOperand (.value k) k
  | index (use : IndexUse) : BeforeOperand (.index use) (.index use)

inductive Rule : State → Token → Except FieldError State → Prop where
  | mark : Rule .start (.operator (.binary .divide)) (.ok (.marked { deleted := true }))
  | letterN {s line} : BeforeNumber s line → Rule s (.letter 'N') (.ok (.lineNumber line))
  | lineNumber {line n cls} : cls ≠ .real →
      Rule (.lineNumber line) (.number n cls) ((line.setNumber (some n.value)).map .segment)
  | lineComment {s line text} : BeforeSegment s line →
      Rule s (.lineComment text) ((line.setComment (some text)).map .finished)
  | comment {s line text} : BeforeSegment s line →
      Rule s (.comment text) ((Comment.make text).map fun c => .segment (line.push (.comment c)))
  | setting {s line} : BeforeSegment s line → Rule s .hash (.ok (.index (.setting line)))
  | letter {s line c} : BeforeSegment s line → c ≠ 'N' → Rule s (.letter c) (.ok (.value (.word line c)))
  | loneLetter {c} : c ≠ 'N' → Rule .word (.letter c) (.ok (.value (.loneWord c)))
  | equals {line i} : Rule (.equals line i) .equals (.ok (.value (.setting line i)))
  | number {s k n cls} : BeforeOperand s k → Rule s (.number n cls) (k.put (.literal n))
  | brackets {s k} : BeforeOperand s k → Rule s .leftBracket (.ok (.value (.operand none .value k)))
  | reference {s k} : BeforeOperand s k → Rule s .hash (.ok (.index (.reference k)))
  | arcTangent {s k} : BeforeOperand s k →
      Rule s (.operator (.unary .arcTangent)) (.ok (.openBracket .arcTangent k))
  | unary {s k op} : BeforeOperand s k → op ≠ .arcTangent →
      Rule s (.operator (.unary op)) (.ok (.openBracket (.argument op) k))
  | name {use text} : Rule (.index use) (.name text) (ParameterIndex.ofName text >>= use.put)
  | leftBracket {purpose k} :
      Rule (.openBracket purpose k) .leftBracket (.ok (.value (.operand none purpose k)))
  | binary {left purpose k op} : Rule (.operator left purpose k) (.operator (.binary op))
      (.ok (.value (.operand (some (left, op)) purpose k)))
  | rightBracket {left purpose k} : Rule (.operator left purpose k) .rightBracket (purpose.put k left)
  | slash {first k} :
      Rule (.slash first k) (.operator (.binary .divide)) (.ok (.openBracket (.divisor first) k))

/-- The answer of a step is that of a rule, or no rule takes the token. -/
def Ruled (s : State) (t : Token) (answer : Except Refusal State) : Prop :=
  answer = .error .unexpected ∨ ∃ result, Rule s t result ∧ answer = accept result

theorem Rule.ruled {s : State} {t : Token} {result : Except FieldError State} (h : Rule s t result) :
    Ruled s t (accept result) :=
  .inr ⟨result, h, rfl⟩

namespace State

theorem stepSegment_ruled {s : State} {line : Line} (h : BeforeSegment s line) (t : Token) :
    Ruled s t (stepSegment line t) := by
  cases t with
  | lineComment text => exact (Rule.lineComment h).ruled
  | comment text => exact (Rule.comment h).ruled
  | hash => exact (Rule.setting h).ruled
  | letter c =>
      rw [stepSegment]
      split
      · exact .inl rfl
      · rename_i hc
        exact (Rule.letter h hc).ruled
  | _ => exact .inl rfl

theorem stepMarked_ruled {s : State} {line : Line} (hnumber : BeforeNumber s line) (t : Token) :
    Ruled s t (stepMarked line t) := by
  by_cases ht : t = .letter 'N'
  · subst ht
    exact (Rule.letterN hnumber).ruled
  · have hstep : stepMarked line t = stepSegment line t := by
      rw [stepMarked]
      exact ht
    rw [hstep]
    cases hnumber with
    | start => exact stepSegment_ruled .start t
    | marked => exact stepSegment_ruled (.marked line) t

theorem stepValue_ruled {s : State} {k : Context} (h : BeforeOperand s k) (t : Token) :
    Ruled s t (stepValue k t) := by
  cases t with
  | number n cls => exact (Rule.number h).ruled
  | leftBracket => exact (Rule.brackets h).ruled
  | hash => exact (Rule.reference h).ruled
  | operator op =>
      cases op with
      | unary op =>
          cases op with
          | arcTangent => exact (Rule.arcTangent h).ruled
          | _ => exact (Rule.unary h (by simp)).ruled
      | binary op => exact .inl rfl
  | _ => exact .inl rfl

/-- A step follows a rule. -/
theorem step_ruled (s : State) (t : Token) : Ruled s t (s.step t) := by
  cases s with
  | start =>
      by_cases ht : t = .operator (.binary .divide)
      · subst ht
        exact Rule.mark.ruled
      · have hstep : start.step t = stepMarked {} t := by
          rw [step]
          exact ht
        rw [hstep]
        exact stepMarked_ruled .start t
  | marked line => exact stepMarked_ruled (.marked line) t
  | lineNumber line =>
      cases t with
      | number n cls =>
          cases cls with
          | positiveInteger => exact (Rule.lineNumber (by simp)).ruled
          | positiveReal => exact (Rule.lineNumber (by simp)).ruled
          | real => exact .inl rfl
      | _ => exact .inl rfl
  | segment line => exact stepSegment_ruled (.segment line) t
  | equals line i =>
      cases t with
      | equals => exact Rule.equals.ruled
      | _ => exact .inl rfl
  | word =>
      cases t with
      | letter c =>
          rw [step]
          split
          · exact .inl rfl
          · rename_i hc
            exact (Rule.loneLetter hc).ruled
      | _ => exact .inl rfl
  | value k => exact stepValue_ruled (.value k) t
  | index use =>
      cases t with
      | name text => exact Rule.name.ruled
      | _ => exact stepValue_ruled (.index use) _
  | openBracket purpose k =>
      cases t with
      | leftBracket => exact Rule.leftBracket.ruled
      | _ => exact .inl rfl
  | operator left purpose k =>
      cases t with
      | rightBracket => exact Rule.rightBracket.ruled
      | operator op =>
          cases op with
          | unary op => exact .inl rfl
          | binary op => exact Rule.binary.ruled
      | _ => exact .inl rfl
  | slash first k =>
      by_cases ht : t = .operator (.binary .divide)
      · subst ht
        exact Rule.slash.ruled
      · have hstep : (slash first k).step t = .error .unexpected := by
          rw [step]
          all_goals simp_all
        exact .inl hstep
  | finished | wholeValue | wholeWord => exact .inl rfl

theorem rule_of_step {s next : State} {t : Token} (h : s.step t = .ok next) : Rule s t (.ok next) := by
  rcases s.step_ruled t with hunexpected | ⟨result, hrule, hresult⟩
  · rw [hunexpected] at h
    cases h
  · rw [hresult] at h
    cases accept_eq_ok_iff.mp h
    exact hrule

theorem rule_of_step_error {s : State} {t : Token} {e : FieldError} (h : s.step t = .error (.field e)) :
    Rule s t (.error e) := by
  rcases s.step_ruled t with hunexpected | ⟨result, hrule, hresult⟩
  · rw [hunexpected] at h
    cases h
  · rw [hresult] at h
    cases result with
    | ok next => cases h
    | error d =>
        cases h
        exact hrule

/-- A comment to the end of the line is the last token, and the line has it. -/
theorem finished_of_lineComment {s last : State} {text : String} {ts : List Token}
    (h : s.steps (.lineComment text :: ts) = .ok last) :
    ∃ line : Line, last = .finished line ∧ line.comment = some text := by
  rw [steps_cons] at h
  obtain ⟨next, hstep, hsteps⟩ := bind_eq_ok_iff.mp h
  have hrule := rule_of_step hstep
  generalize hresult : Except.ok next = result at hrule
  cases hrule with
  | lineComment _ =>
      obtain ⟨line, hline, rfl⟩ := map_eq_ok_iff.mp hresult.symm
      obtain ⟨_, rfl⟩ := Line.setComment_eq_ok_iff.mp hline
      cases ts with
      | nil =>
          cases hsteps
          exact ⟨_, rfl, rfl⟩
      | cons t ts => cases hsteps

end State

end GCode.Reader
