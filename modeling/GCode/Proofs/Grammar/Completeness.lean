import GCode.Proofs.Grammar.Steps

/-!
# The reader accepts what the grammar derives

The tokens of a derived value take the reader from the place of the value to where its context puts
it, whatever the context is. A derived line takes it from the start to that line.
-/

namespace GCode.Grammar

open Reader

/-! ## Values -/

/-- Behind `#`, a token that is no name is read as the start of a value. -/
theorem steps_index_of_value {ts v} (h : Value ts v) (use : IndexUse) :
    (State.index use).steps ts = (State.value (.index use)).steps ts := by
  cases ts with
  | nil => exact absurd rfl h.ne_nil
  | cons t us =>
      have hn := h.head_ne_name
      rw [State.steps_cons, State.steps_cons]
      cases t with
      | name text => exact absurd rfl (hn text)
      | _ => rfl

theorem steps_value_of_brackets {ts v} (h : Brackets ts v) (k : Context) :
    (State.value k).steps ts = (State.openBracket .value k).steps ts := by
  cases h
  rfl

theorem steps_unary {op : UnaryOperator} (h : op ≠ .arcTangent) (k : Context) (ts : List Token) :
    (State.value k).steps (.operator (.unary op) :: ts) =
      (State.openBracket (.argument op) k).steps ts := by
  cases op with
  | arcTangent => exact absurd rfl h
  | _ => exact State.steps_cons_of_ok rfl ts

/-- The closing bracket hands on the value of all operands. -/
theorem steps_rightBracket (v : RealValue) (purpose : Purpose) (k : Context) :
    (State.operator v purpose k).steps [.rightBracket] = accept (purpose.put k v) := by
  rw [State.steps_cons, show (State.operator v purpose k).step .rightBracket =
    accept (purpose.put k v) from rfl]
  cases accept (purpose.put k v) <;> rfl

mutual
theorem Value.steps {ts v} (h : Value ts v) (k : Context) :
    (State.value k).steps ts = accept (k.put v) := by
  match h with
  | .number n cls =>
      rw [State.steps_cons, show (State.value k).step (.number n cls) =
        accept (k.put (.literal n)) from rfl]
      cases accept (k.put (.literal n)) <;> rfl
  | .brackets hb =>
      rw [steps_value_of_brackets hb]
      exact Brackets.steps hb .value k
  | .parameter hi =>
      rw [State.steps_cons_of_ok (n := .index (.reference k)) rfl]
      exact Index.steps hi (.reference k)
  | .unary hop hb =>
      rw [steps_unary hop]
      exact Brackets.steps hb (.argument _) k
  | .arcTangent (v := a) hb hc =>
      rw [State.steps_cons_of_ok (n := .openBracket .arcTangent k) rfl]
      rw [State.steps_append_of_ok (n := .slash a k) (Brackets.steps hb .arcTangent k)]
      rw [State.steps_cons_of_ok (n := .openBracket (.divisor a) k) rfl]
      exact Brackets.steps hc (.divisor a) k

theorem Brackets.steps {ts v} (h : Brackets ts v) (purpose : Purpose) (k : Context) :
    (State.openBracket purpose k).steps ts = accept (purpose.put k v) := by
  match h with
  | .fold (v := v) hv ht =>
      rw [State.steps_cons_of_ok (n := .value (.operand none purpose k)) rfl]
      rw [State.steps_append_of_ok (n := .operator v purpose k) (Value.steps hv _)]
      rw [State.steps_append_of_ok (Tail.steps ht v purpose k)]
      exact steps_rightBracket _ purpose k

theorem Tail.steps {ts operands} (h : Tail ts operands) (left : RealValue) (purpose : Purpose)
    (k : Context) :
    (State.operator left purpose k).steps ts =
      .ok (.operator (Operands.fold left operands) purpose k) := by
  match h with
  | .nil => rfl
  | .cons (v := v) hv ht =>
      rename_i op _ _ _
      rw [State.steps_cons_of_ok (n := .value (.operand (some (left, op)) purpose k)) rfl]
      rw [State.steps_append_of_ok (n := .operator (.binary op left v) purpose k) (Value.steps hv _)]
      exact Tail.steps ht (.binary op left v) purpose k

theorem Index.steps {ts i} (h : Index ts i) (use : IndexUse) :
    (State.index use).steps ts = accept (use.put i) := by
  match h with
  | .name hne hall =>
      rename_i text
      have hn := ParameterIndex.ofName_eq_ok_iff.mpr ⟨hne, hall, rfl⟩
      rw [State.steps_cons, show (State.index use).step (.name text) =
        accept (ParameterIndex.ofName text >>= use.put) from rfl, hn]
      change (accept (use.put (.named text)) >>= fun next => next.steps []) = _
      cases accept (use.put (.named text)) <;> rfl
  | .number (n := n) hv hn =>
      have hi := ParameterIndex.ofValue_eq_ok_iff.mpr (Or.inl ⟨n, _, rfl, hn, rfl⟩)
      rw [steps_index_of_value hv, Value.steps hv, Context.put, hi]
      rfl
  | .expression hv hl =>
      have hi := ParameterIndex.ofValue_eq_ok_iff.mpr (Or.inr ⟨hl, rfl⟩)
      rw [steps_index_of_value hv, Value.steps hv, Context.put, hi]
      rfl
end

/-! ## Lines -/

/-- The states in which a segment may start, with the line read so far. -/
inductive BeforeSegment : State → GCode.Line → Prop where
  | start : BeforeSegment .start {}
  | marked (line : GCode.Line) : BeforeSegment (.marked line) line
  | segment (line : GCode.Line) : BeforeSegment (.segment line) line

theorem BeforeSegment.line? {s line} (h : BeforeSegment s line) : s.line? = some line := by
  cases h <;> rfl

theorem ne_N_of_mem_wordLetters {c : Char} (h : c.toUpper ∈ wordLetters) : c ≠ 'N' := by
  rintro rfl
  revert h
  decide

theorem BeforeSegment.step_letter {s line c} (h : BeforeSegment s line) (hc : c ≠ 'N') :
    s.step (.letter c) = .ok (.value (.word line c)) := by
  have hm : ∀ line, State.stepMarked line (.letter c) = .ok (.value (.word line c)) := by
    intro line
    rw [State.stepMarked]
    · simp [State.stepSegment, hc]
    · intro h; cases h; exact hc rfl
  cases h with
  | start => exact hm {}
  | marked => exact hm line
  | segment => simp [State.step, State.stepSegment, hc]

theorem BeforeSegment.step_comment {s line text} (h : BeforeSegment s line)
    (hl : '(' ∉ text.toList) (hr : ')' ∉ text.toList) :
    s.step (.comment text) = .ok (.segment (line.push (.comment ⟨text⟩))) := by
  have hc := Comment.make_eq_ok_iff.mpr ⟨hl, hr, rfl⟩
  cases h <;> simp [State.step, State.stepMarked, State.stepSegment, hc, Except.map]

theorem BeforeSegment.step_lineComment {s line text} (h : BeforeSegment s line)
    (hl : '(' ∉ text.toList) :
    s.step (.lineComment text) = .ok (.finished { line with comment := some text }) := by
  have hc (line : GCode.Line) := (@Line.setComment_eq_ok_iff line _ text).mpr ⟨hl, rfl⟩
  cases h <;> simp [State.step, State.stepMarked, State.stepSegment, hc, Except.map]

theorem BeforeSegment.step_hash {s line} (h : BeforeSegment s line) :
    s.step .hash = .ok (.index (.setting line)) := by
  cases h <;> rfl

theorem Word.steps {s line ts w} (hs : BeforeSegment s line) (h : Word ts w) :
    s.steps ts = .ok (.segment (line.push (.word w))) := by
  cases h with
  | mk hc hv =>
      rw [State.steps_cons_of_ok (hs.step_letter (ne_N_of_mem_wordLetters hc)), hv.steps, Context.put,
        Word.make_eq_ok_iff.mpr ⟨hc, rfl⟩]
      rfl

theorem Segment.steps {s line ts item} (hs : BeforeSegment s line) (h : Segment ts item) :
    s.steps ts = .ok (.segment (line.push item)) := by
  cases h with
  | word hw => exact hw.steps hs
  | comment hl hr => exact State.steps_cons_of_ok (hs.step_comment hl hr) []
  | setting hi hv =>
      rename_i i v
      rw [State.steps_cons_of_ok hs.step_hash]
      rw [State.steps_append_of_ok (n := .equals line i) (hi.steps _)]
      rw [State.steps_cons_of_ok (n := .value (.setting line i)) rfl, hv.steps]
      rfl

/-- After the segments a further segment may start, also if there was none. -/
theorem Segments.steps {s line ts items} (hs : BeforeSegment s line) (h : Segments ts items) :
    ∃ last, s.steps ts = .ok last ∧ BeforeSegment last { line with items := line.items ++ items } := by
  induction h generalizing s line with
  | nil => exact ⟨s, rfl, by simpa using hs⟩
  | cons hi _ ih =>
      obtain ⟨last, hsteps, hlast⟩ := ih (.segment (line.push _))
      refine ⟨last, ?_, by simpa [Line.push] using hlast⟩
      rw [State.steps_append_of_ok (hi.steps hs)]
      exact hsteps

theorem EndComment.steps {s line ts comment} (hs : BeforeSegment s line) (hc : line.comment = none)
    (h : EndComment ts comment) :
    ∃ last, s.steps ts = .ok last ∧ last.line? = some { line with comment } := by
  cases h with
  | absent => exact ⟨s, rfl, by rw [hs.line?, ← hc]⟩
  | present hl => exact ⟨_, State.steps_cons_of_ok (hs.step_lineComment hl) [], rfl⟩

theorem Mark.steps {ts deleted} (h : Mark ts deleted) :
    ∃ s, State.start.steps ts = .ok s ∧ BeforeSegment s { deleted } ∧
      s.step (.letter 'N') = .ok (.lineNumber { deleted }) := by
  cases h with
  | absent => exact ⟨_, rfl, .start, rfl⟩
  | present => exact ⟨_, rfl, .marked _, rfl⟩

theorem LineNumber.steps {s line ts number} (hs : BeforeSegment s line)
    (hN : s.step (.letter 'N') = .ok (.lineNumber line)) (hn : line.number = none)
    (h : LineNumber ts number) :
    ∃ next, s.steps ts = .ok next ∧ BeforeSegment next { line with number } := by
  cases h with
  | absent => exact ⟨s, rfl, by rw [← hn]; exact hs⟩
  | present hcls hx =>
      rename_i n cls
      have hset := (@Line.setNumber_eq_ok_iff line _ n.value).mpr ⟨hx, rfl⟩
      refine ⟨_, ?_, .segment _⟩
      rw [State.steps_cons_of_ok hN, State.steps_cons]
      cases cls with
      | real => exact absurd rfl hcls
      | _ => simp only [State.step, hset, Except.map]; rfl

theorem Line.steps {ts line} (h : Line ts line) :
    ∃ last, State.start.steps ts = .ok last ∧ last.line? = some line := by
  cases h with
  | mk hm hn hs hc =>
      obtain ⟨s₁, h₁, hb₁, hN⟩ := hm.steps
      obtain ⟨s₂, h₂, hb₂⟩ := hn.steps hb₁ hN rfl
      obtain ⟨s₃, h₃, hb₃⟩ := hs.steps hb₂
      obtain ⟨last, h₄, hl⟩ := hc.steps hb₃ rfl
      refine ⟨last, ?_, by simpa using hl⟩
      rw [State.steps_append_of_ok h₁, State.steps_append_of_ok h₂, State.steps_append_of_ok h₃, h₄]

end GCode.Grammar
