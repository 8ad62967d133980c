import GCode.Proofs.Grammar.Rules

/-!
# The grammar derives what the reader accepts

`Reached ts s` says what the tokens `ts` must have been for the reader to stand in `s`: which parts
they complete and which they leave open. Every step keeps it, so a reader that has come to the end of
a line has read a derived line.
-/

namespace GCode.Grammar

open Reader

/-! ## What is read on the way to a state -/

/-- The tokens derive a line that may still go on. -/
def Unfinished (ts : List Token) (line : GCode.Line) : Prop :=
  Line ts line ∧ line.comment = none

mutual
/-- The tokens end where a value is to come and go into the context. -/
inductive BeforeValue : List Token → Context → Prop where
  | alone : BeforeValue [] .alone
  | loneWord {c} : BeforeValue [.letter c] (.loneWord c)
  | word {ts line c} : Unfinished ts line → BeforeValue (ts ++ [.letter c]) (.word line c)
  | setting {ts us line i} : Unfinished ts line → Index us i →
      BeforeValue (ts ++ .hash :: (us ++ [.equals])) (.setting line i)
  | index {ts use} : BeforeIndex ts use → BeforeValue ts (.index use)
  | first {ts purpose k} : BeforeBrackets ts purpose k →
      BeforeValue (ts ++ [.leftBracket]) (.operand none purpose k)
  | next {ts us vs v operands op purpose k} : BeforeBrackets ts purpose k → Value us v →
      Tail vs operands →
      BeforeValue (ts ++ .leftBracket :: (us ++ (vs ++ [.operator (.binary op)])))
        (.operand (some (Operands.fold v operands, op)) purpose k)

/-- The tokens end behind a `#`. -/
inductive BeforeIndex : List Token → IndexUse → Prop where
  | setting {ts line} : Unfinished ts line → BeforeIndex (ts ++ [.hash]) (.setting line)
  | reference {ts k} : BeforeValue ts k → BeforeIndex (ts ++ [.hash]) (.reference k)

/-- The tokens end where a pair of brackets is to come. -/
inductive BeforeBrackets : List Token → Purpose → Context → Prop where
  | value {ts k} : BeforeValue ts k → BeforeBrackets ts .value k
  | argument {ts op k} : BeforeValue ts k → op ≠ .arcTangent →
      BeforeBrackets (ts ++ [.operator (.unary op)]) (.argument op) k
  | arcTangent {ts k} : BeforeValue ts k →
      BeforeBrackets (ts ++ [.operator (.unary .arcTangent)]) .arcTangent k
  | divisor {ts us first k} : BeforeValue ts k → Brackets us first →
      BeforeBrackets (ts ++ .operator (.unary .arcTangent) :: (us ++ [.operator (.binary .divide)]))
        (.divisor first) k
end

inductive Reached : List Token → State → Prop where
  | start : Reached [] .start
  | marked : Reached [.operator (.binary .divide)] (.marked { deleted := true })
  | lineNumber {ts deleted} : Mark ts deleted → Reached (ts ++ [.letter 'N']) (.lineNumber { deleted })
  | segment {ts line} : Unfinished ts line → Reached ts (.segment line)
  | finished {ts line} : Line ts line → Reached ts (.finished line)
  | equals {ts us line i} : Unfinished ts line → Index us i →
      Reached (ts ++ .hash :: us) (.equals line i)
  | word : Reached [] .word
  | value {ts k} : BeforeValue ts k → Reached ts (.value k)
  | index {ts use} : BeforeIndex ts use → Reached ts (.index use)
  | openBracket {ts purpose k} : BeforeBrackets ts purpose k → Reached ts (.openBracket purpose k)
  | operator {ts us vs v operands purpose k} : BeforeBrackets ts purpose k → Value us v →
      Tail vs operands →
      Reached (ts ++ .leftBracket :: (us ++ vs)) (.operator (Operands.fold v operands) purpose k)
  | slash {ts us first k} : BeforeValue ts k → Brackets us first →
      Reached (ts ++ .operator (.unary .arcTangent) :: us) (.slash first k)
  | wholeValue {ts v} : Value ts v → Reached ts (.wholeValue v)
  | wholeWord {ts w} : Word ts w → Reached ts (.wholeWord w)

/-! ## Lines that may go on -/

theorem Mark.unfinished {ts deleted} (h : Mark ts deleted) : Unfinished ts { deleted } :=
  ⟨by simpa using Line.mk h .absent .nil .absent, rfl⟩

theorem Unfinished.push {ts us line item} (h : Unfinished ts line) (hi : Segment us item) :
    Unfinished (ts ++ us) (line.push item) := by
  obtain ⟨h, hnone⟩ := h
  cases h with
  | mk hm hn hs hc =>
      cases hc with
      | absent =>
          refine ⟨?_, rfl⟩
          simpa [Line.push] using Line.mk hm hn (hs.concat hi) .absent
      | present => cases hnone

theorem Unfinished.finish {ts line text} (h : Unfinished ts line) (hl : '(' ∉ text.toList) :
    Line (ts ++ [.lineComment text]) { line with comment := some text } := by
  obtain ⟨h, hnone⟩ := h
  cases h with
  | mk hm hn hs hc =>
      cases hc with
      | absent => simpa using Line.mk hm hn hs (.present hl)
      | present => cases hnone

theorem Mark.number {ts deleted n cls} (h : Mark ts deleted) (hcls : cls ≠ .real)
    (hx : Line.isLineNumber n.value = true) :
    Unfinished (ts ++ [.letter 'N'] ++ [.number n cls])
      { deleted, number := some (Number.normalized n.value) } :=
  ⟨by simpa using Line.mk h (.present hcls hx) .nil .absent, rfl⟩

/-! ## Complete values -/

mutual
/-- A complete value takes the tokens before it to where its context puts it. -/
theorem BeforeValue.put {ts us k v s} (h : BeforeValue ts k) (hv : Value us v)
    (hs : k.put v = .ok s) : Reached (ts ++ us) s := by
  match h with
  | .alone => cases hs; exact .wholeValue hv
  | .loneWord =>
      obtain ⟨w, hw, rfl⟩ := map_eq_ok_iff.mp hs
      obtain ⟨hc, rfl⟩ := Word.make_eq_ok_iff.mp hw
      exact .wholeWord (.mk hc hv)
  | .word hl =>
      obtain ⟨w, hw, rfl⟩ := map_eq_ok_iff.mp hs
      obtain ⟨hc, rfl⟩ := Word.make_eq_ok_iff.mp hw
      rw [List.append_assoc]
      exact .segment (hl.push (.word (.mk hc hv)))
  | .setting hl hi =>
      cases hs
      have := hl.push (.setting hi hv)
      exact .segment (by simpa using this)
  | .index hu =>
      obtain ⟨i, hi, hs⟩ := bind_eq_ok_iff.mp hs
      rcases ParameterIndex.ofValue_eq_ok_iff.mp hi with ⟨n, m, rfl, hn, rfl⟩ | ⟨hl, rfl⟩
      · exact BeforeIndex.put hu (.number hv hn) hs
      · exact BeforeIndex.put hu (.expression hv hl) hs
  | .first hb =>
      cases hs
      have := Reached.operator hb hv .nil
      simpa [Operands.fold] using this
  | .next hb hw ht =>
      cases hs
      rw [← Operands.fold_concat]
      simpa using Reached.operator hb hw (ht.concat hv)

theorem BeforeIndex.put {ts us use i s} (h : BeforeIndex ts use) (hi : Index us i)
    (hs : use.put i = .ok s) : Reached (ts ++ us) s := by
  match h with
  | .setting hl => cases hs; simpa using Reached.equals hl hi
  | .reference hk => simpa using BeforeValue.put hk (.parameter hi) hs
end

theorem BeforeBrackets.put {ts us purpose k v s} (h : BeforeBrackets ts purpose k)
    (hb : Brackets us v) (hs : purpose.put k v = .ok s) : Reached (ts ++ us) s := by
  cases h with
  | value hk => exact hk.put (.brackets hb) hs
  | argument hk hop => simpa using hk.put (.unary hop hb) hs
  | arcTangent hk => cases hs; simpa using Reached.slash hk hb
  | divisor hk hc => simpa using hk.put (.arcTangent hc hb) hs

/-! ## Steps -/

theorem Reached.unfinished {ts s line} (h : Reached ts s) (hs : BeforeSegment s line) :
    Unfinished ts line := by
  cases hs with
  | start => cases h; exact Mark.absent.unfinished
  | marked => cases h; exact Mark.present.unfinished
  | segment => cases h; assumption

theorem Reached.mark {ts s line} (h : Reached ts s) (hs : BeforeNumber s line) :
    ∃ deleted, Mark ts deleted ∧ line = { deleted } := by
  cases hs with
  | start => cases h; exact ⟨_, .absent, rfl⟩
  | marked => cases h; exact ⟨_, .present, rfl⟩

theorem Reached.beforeValue {ts s k} (h : Reached ts s) (hs : BeforeOperand s k) : BeforeValue ts k := by
  cases hs with
  | value => cases h; assumption
  | index => cases h; exact .index ‹_›

/-- One token keeps what is known about the tokens read. -/
theorem Reached.step {ts s t next} (h : Reached ts s) (hs : s.step t = .ok next) :
    Reached (ts ++ [t]) next := by
  have hrule := State.rule_of_step hs
  generalize hresult : Except.ok next = result at hrule
  cases hrule with
  | mark => cases hresult; cases h; exact .marked
  | letterN hnumber =>
      cases hresult
      obtain ⟨_, hmark, rfl⟩ := h.mark hnumber
      exact .lineNumber hmark
  | lineNumber hcls =>
      cases h with
      | lineNumber hmark =>
          obtain ⟨line, hset, rfl⟩ := map_eq_ok_iff.mp hresult.symm
          obtain ⟨hx, rfl⟩ := Line.setNumber_eq_ok_iff.mp hset
          exact .segment (hmark.number hcls hx)
  | lineComment hsegment =>
      obtain ⟨line, hset, rfl⟩ := map_eq_ok_iff.mp hresult.symm
      obtain ⟨hl, rfl⟩ := Line.setComment_eq_ok_iff.mp hset
      exact .finished ((h.unfinished hsegment).finish hl)
  | comment hsegment =>
      obtain ⟨c, hmake, rfl⟩ := map_eq_ok_iff.mp hresult.symm
      obtain ⟨hl, hr, rfl⟩ := Comment.make_eq_ok_iff.mp hmake
      exact .segment ((h.unfinished hsegment).push (.comment hl hr))
  | setting hsegment => cases hresult; exact .index (.setting (h.unfinished hsegment))
  | letter hsegment _ => cases hresult; exact .value (.word (h.unfinished hsegment))
  | loneLetter _ => cases hresult; cases h; exact .value .loneWord
  | equals =>
      cases hresult
      cases h with
      | equals hl hi => exact .value (by simpa using BeforeValue.setting hl hi)
  | number hoperand => exact (h.beforeValue hoperand).put (.number _ _) hresult.symm
  | brackets hoperand => cases hresult; exact .value (.first (.value (h.beforeValue hoperand)))
  | reference hoperand => cases hresult; exact .index (.reference (h.beforeValue hoperand))
  | arcTangent hoperand => cases hresult; exact .openBracket (.arcTangent (h.beforeValue hoperand))
  | unary hoperand hop => cases hresult; exact .openBracket (.argument (h.beforeValue hoperand) hop)
  | name =>
      obtain ⟨i, hi, hput⟩ := bind_eq_ok_iff.mp hresult.symm
      obtain ⟨hne, hall, rfl⟩ := ParameterIndex.ofName_eq_ok_iff.mp hi
      cases h with
      | index hu => exact hu.put (.name hne hall) hput
  | leftBracket =>
      cases hresult
      cases h with
      | openBracket hb => exact .value (.first hb)
  | binary =>
      cases hresult
      cases h with
      | operator hb hv ht => exact .value (by simpa using BeforeValue.next hb hv ht)
  | rightBracket =>
      cases h with
      | operator hb hv ht => simpa using hb.put (.fold hv ht) hresult.symm
  | slash =>
      cases hresult
      cases h with
      | slash hk hb => exact .openBracket (by simpa using BeforeBrackets.divisor hk hb)

theorem Reached.steps {ts us s last} (h : Reached ts s) (hs : s.steps us = .ok last) :
    Reached (ts ++ us) last := by
  induction us generalizing ts s with
  | nil => cases hs; simpa using h
  | cons t us ih =>
      rw [State.steps_cons] at hs
      obtain ⟨next, hn, hs⟩ := bind_eq_ok_iff.mp hs
      simpa using ih (h.step hn) hs

theorem Reached.derives_line {ts s line} (h : Reached ts s) (hl : s.line? = some line) : Line ts line := by
  cases h with
  | start => cases hl; exact Mark.absent.unfinished.1
  | marked => cases hl; exact Mark.present.unfinished.1
  | segment h => cases hl; exact h.1
  | finished h => cases hl; exact h
  | _ => cases hl

theorem Reached.derives_word {ts s w} (h : Reached ts s) (hw : s.word? = some w) : Word ts w := by
  cases h with
  | wholeWord h => cases hw; exact h
  | _ => cases hw

theorem Reached.derives_value {ts s v} (h : Reached ts s) (hv : s.value? = some v) : Value ts v := by
  cases h with
  | wholeValue h => cases hv; exact h
  | _ => cases hv

end GCode.Grammar
