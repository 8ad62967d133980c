import GCode.Proofs.Printing.Number
import GCode.Proofs.Printing.Scans
import GCode.Value.Text

/-!
# Printed values

The text of a value scans as tokens from which the grammar derives the value.
-/

namespace GCode

variable {literal : Number → Prop}

/-! ## Tokens -/

/-- The number that is written for an index. -/
def Number.ofIndex (n : UInt32) : Number :=
  .integer (Int64.ofInt n.toNat)

mutual
/-- The tokens that a value is written with. -/
def RealValue.tokens : RealValue → List Token
  | .literal n => [.number n n.numeral.classify]
  | .parameter i => .hash :: i.tokens
  | .unary op arg => .operator (.unary op) :: .leftBracket :: (arg.tokens ++ [.rightBracket])
  | .binary op left right =>
    if op = .divide && left.isArcTangent && !right.isBinary then
      .leftBracket :: (left.tokens ++ .operator (.binary .divide) :: .leftBracket ::
        (right.tokens ++ [.rightBracket, .rightBracket]))
    else
      .leftBracket :: (left.tokens ++ .operator (.binary op) :: (right.tokens ++ [.rightBracket]))

def ParameterIndex.tokens : ParameterIndex → List Token
  | .number n => [.number (.ofIndex n) (Number.ofIndex n).numeral.classify]
  | .named name => [.name name]
  | .expression v => v.tokens
end

theorem RealValue.head?_tokens {v : RealValue} (h : v.isBinary = true) :
    v.tokens.head? = some .leftBracket := by
  cases v with
  | binary op left right =>
      rw [tokens]
      split <;> rfl
  | _ => cases h

/-! ## Derivations -/

/-- What is no arc tangent may stand anywhere, if it may stand on the left of a division. -/
theorem RealValue.Shaped.undivided {v : RealValue} {divided : Bool} (h : v.Shaped literal divided)
    (hv : v.isArcTangent = false) : v.Shaped literal false := by
  cases v with
  | unary op arg =>
      simp only [Shaped] at h ⊢
      refine ⟨fun hop => ?_, h.2⟩
      rw [hop] at hv
      cases hv
  | _ => simpa only [Shaped] using h

namespace Grammar

theorem Brackets.single {ts v} (h : Value ts v) : Brackets (.leftBracket :: (ts ++ [.rightBracket])) v :=
  .fold h .nil

theorem Value.brackets_of_head? {ts v} (h : Value ts v) (hts : ts.head? = some .leftBracket) :
    Brackets ts v := by
  cases h with
  | brackets h => exact h
  | _ => simp at hts

end Grammar

theorem Number.whole?_ofIndex (n : UInt32) : (ofIndex n).whole? = some (n.toNat : Int) := by
  have hn := n.toNat_lt
  rw [ofIndex, whole?, Int64.toInt_ofInt_of_le (by omega) (by omega)]

theorem RealValue.derives_binary {op : BinaryOperator} {left right : RealValue}
    (hleft : Grammar.Value left.tokens left) (hright : Grammar.Value right.tokens right)
    (hatan : left.isArcTangent = false) :
    Grammar.Value (RealValue.binary op left right).tokens (.binary op left right) := by
  rw [tokens, hatan, Bool.and_false, Bool.false_and, if_neg Bool.false_ne_true]
  have htail : Grammar.Tail _ [(op, right)] := .cons hright .nil
  exact .brackets (by simpa [Operands.fold] using Grammar.Brackets.fold hleft htail)

/-- The arc tangent of a ratio, in a pair of brackets of its own. -/
theorem RealValue.derives_ratio {arg right : RealValue} (harg : Grammar.Value arg.tokens arg)
    (hright : Grammar.Value right.tokens right) :
    Grammar.Value (RealValue.binary .divide (.unary .arcTangent arg) right).tokens
      (.binary .divide (.unary .arcTangent arg) right) := by
  have hleft := Grammar.Brackets.single harg
  rw [tokens, tokens]
  split
  · exact .brackets (by simpa using Grammar.Brackets.single (.arcTangent hleft (.single hright)))
  · -- a binary right side has its brackets already
    rename_i hbinary
    have hbrackets := hright.brackets_of_head? (head?_tokens (by simpa [isArcTangent] using hbinary))
    exact .brackets (by simpa using Grammar.Brackets.single (.arcTangent hleft hbrackets))

mutual
theorem RealValue.derives {v : RealValue} (h : v.Shaped literal false) : Grammar.Value v.tokens v := by
  match v with
  | .literal n =>
      rw [RealValue.tokens]
      exact .number n _
  | .parameter i =>
      simp only [RealValue.Shaped] at h
      rw [RealValue.tokens]
      exact .parameter (ParameterIndex.derives h)
  | .unary op arg =>
      simp only [RealValue.Shaped] at h
      rw [RealValue.tokens]
      exact .unary (fun hop => Bool.false_ne_true (h.1 hop)) (.single (RealValue.derives h.2))
  | .binary op left right =>
      simp only [RealValue.Shaped] at h
      have hright := RealValue.derives h.2
      cases hatan : left.isArcTangent with
      | false => exact RealValue.derives_binary (RealValue.derives (h.1.undivided hatan)) hright hatan
      | true =>
          match left with
          | .unary op' arg =>
              have hop' : op' = .arcTangent := by
                cases op' with
                | arcTangent => rfl
                | _ => cases hatan
              subst hop'
              simp only [RealValue.Shaped] at h
              obtain ⟨⟨hop, harg⟩, _⟩ := h
              have hdivide : op = .divide := by simpa using hop
              subst hdivide
              exact RealValue.derives_ratio (RealValue.derives harg) hright
          | .literal _ | .parameter _ | .binary .. => cases hatan

theorem ParameterIndex.derives {i : ParameterIndex} (h : i.Shaped literal) :
    Grammar.Index i.tokens i := by
  match i with
  | .number n =>
      rw [ParameterIndex.tokens]
      exact .number (.number _ _) (Number.whole?_ofIndex n)
  | .named name =>
      simp only [ParameterIndex.Shaped] at h
      rw [ParameterIndex.tokens]
      exact .name h.1 h.2
  | .expression v =>
      simp only [ParameterIndex.Shaped] at h
      rw [ParameterIndex.tokens]
      exact .expression (RealValue.derives h.2) h.1
end

/-! ## Scanning -/

/-- What stands behind a value. -/
def EndsValue (rest : List Char) : Prop :=
  ∀ c ∈ rest.head?, c = ' ' ∨ c = ']' ∨ c = '='

theorem EndsValue.stops {rest : List Char} (h : EndsValue rest) (n : Numeral) : n.Stops rest := by
  refine ⟨fun c hc => ?_, fun _ c hc => ?_⟩ <;> rcases h c hc with rfl | rfl | rfl <;> rfl

theorem endsValue_cons {c : Char} (h : c = ' ' ∨ c = ']' ∨ c = '=') (rest : List Char) :
    EndsValue (c :: rest) := by
  rintro _ ⟨⟩
  exact h

theorem Number.scans {n : Number} (h : n.Finite) {rest : List Char} (hrest : EndsValue rest) :
    Scans false (n.text.toList ++ rest) [.number n n.numeral.classify] true rest := by
  have hscan := Scans.numeral n.wellFormed_numeral (hrest.stops _)
  rw [number_numeral h] at hscan
  rw [toList_text h]
  exact hscan

theorem Number.text_ofIndex (n : UInt32) : (ofIndex n).text = n.toNat.repr := by
  have hn := n.toNat_lt
  rw [ofIndex, text, Int64.toInt_ofInt_of_le (by omega) (by omega)]
  rfl

mutual
theorem RealValue.scans {v : RealValue} {divided : Bool} (h : v.Shaped Number.Finite divided)
    {rest : List Char} (hrest : EndsValue rest) :
    Scans false (v.text.toList ++ rest) v.tokens true rest := by
  match v with
  | .literal n =>
      simp only [RealValue.Shaped] at h
      rw [RealValue.tokens, RealValue.text]
      exact Number.scans h hrest
  | .parameter i =>
      simp only [RealValue.Shaped] at h
      have hindex := ParameterIndex.scans h hrest
      simpa [RealValue.tokens, RealValue.text] using (Scans.hash false _).append hindex
  | .unary op arg =>
      simp only [RealValue.Shaped] at h
      have harg := RealValue.scans h.2 (endsValue_cons (.inr (.inl rfl)) rest)
      have hbrackets := (Scans.leftBracket false _).append (harg.append (.rightBracket true rest))
      simpa [RealValue.tokens, RealValue.text] using (Scans.unary op false _).append hbrackets
  | .binary op left right =>
      simp only [RealValue.Shaped] at h
      rw [RealValue.tokens, RealValue.text]
      split
      · rename_i hratio
        have hdivide : op = .divide := by simp_all
        subst hdivide
        have hright := RealValue.scans h.2 (endsValue_cons (.inr (.inl rfl)) (']' :: rest))
        have hbrackets := (Scans.leftBracket false _).space.append
          (hright.append ((Scans.rightBracket true _).append (.rightBracket true rest)))
        have hslash := (Scans.binary .divide _).space.append hbrackets
        have hleft := (RealValue.scans h.1 (endsValue_cons (.inl rfl) _)).append hslash
        simpa [BinaryOperator.keyword] using (Scans.leftBracket false _).append hleft
      · have hright := RealValue.scans h.2 (endsValue_cons (.inr (.inl rfl)) rest)
        have hclosed := hright.space.append (.rightBracket true rest)
        have hoperator := (Scans.binary op _).space.append hclosed
        have hleft := (RealValue.scans h.1 (endsValue_cons (.inl rfl) _)).append hoperator
        simpa using (Scans.leftBracket false _).append hleft

theorem ParameterIndex.scans {i : ParameterIndex} (h : i.Shaped Number.Finite)
    {rest : List Char} (hrest : EndsValue rest) :
    Scans false (i.text.toList ++ rest) i.tokens true rest := by
  match i with
  | .number n =>
      rw [ParameterIndex.tokens, ParameterIndex.text, ← Number.text_ofIndex]
      exact Number.scans (n := .ofIndex n) trivial hrest
  | .named name =>
      simp only [ParameterIndex.Shaped] at h
      simpa [ParameterIndex.tokens, ParameterIndex.text] using Scans.name h.1 h.2 false rest
  | .expression v =>
      simp only [ParameterIndex.Shaped] at h
      rw [ParameterIndex.tokens, ParameterIndex.text]
      exact RealValue.scans h.2 hrest
end

end GCode
