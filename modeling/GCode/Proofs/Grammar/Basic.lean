import GCode.Reader.Step

/-!
# The grammar

Which tokens make up a line, and which line they make up. The productions are those of the reader's
module comment; each one asks of its parts what the part must meet on its own. The operands in a pair
of brackets are a list here, and the value is its fold from the left.
-/

namespace GCode

/-- The operators and operands in a pair of brackets, behind the first operand. -/
abbrev Operands := List (BinaryOperator × RealValue)

/-- The value of all operands in a pair of brackets. -/
def Operands.fold (first : RealValue) (operands : Operands) : RealValue :=
  operands.foldl (fun left next => .binary next.1 left next.2) first

theorem Operands.fold_concat (first v : RealValue) (operands : Operands) (op : BinaryOperator) :
    Operands.fold first (operands ++ [(op, v)]) = .binary op (Operands.fold first operands) v := by
  simp [fold]

namespace Grammar

mutual
inductive Value : List Token → RealValue → Prop where
  | number (n : Number) (cls : NumeralClass) : Value [.number n cls] (.literal n)
  | brackets {ts v} : Brackets ts v → Value ts v
  | parameter {ts i} : Index ts i → Value (.hash :: ts) (.parameter i)
  | unary {op ts v} : op ≠ .arcTangent → Brackets ts v →
      Value (.operator (.unary op) :: ts) (.unary op v)
  | arcTangent {ts us v w} : Brackets ts v → Brackets us w →
      Value (.operator (.unary .arcTangent) :: (ts ++ .operator (.binary .divide) :: us))
        (.binary .divide (.unary .arcTangent v) w)

inductive Brackets : List Token → RealValue → Prop where
  | fold {ts us v operands} : Value ts v → Tail us operands →
      Brackets (.leftBracket :: (ts ++ (us ++ [.rightBracket]))) (Operands.fold v operands)

/-- What stands in a pair of brackets behind the first operand. -/
inductive Tail : List Token → Operands → Prop where
  | nil : Tail [] []
  | cons {op ts us v operands} : Value ts v → Tail us operands →
      Tail (.operator (.binary op) :: (ts ++ us)) ((op, v) :: operands)

inductive Index : List Token → ParameterIndex → Prop where
  | name {text : String} : text ≠ "" → (∀ c ∈ text.toList, ParameterIndex.isNameChar c = true) →
      Index [.name text] (.named text)
  /-- A literal must be whole and fit into 32 bits. -/
  | number {ts n} {k : UInt32} : Value ts (.literal n) → n.whole? = some (k.toNat : Int) →
      Index ts (.number k)
  | expression {ts v} : Value ts v → v.literal? = none → Index ts (.expression v)
end

inductive Word : List Token → GCode.Word → Prop where
  | mk {c ts v} : c.toUpper ∈ wordLetters → Value ts v → Word (.letter c :: ts) ⟨c.toUpper, v⟩

inductive Segment : List Token → Item → Prop where
  | word {ts w} : Word ts w → Segment ts (.word w)
  | comment {text : String} : '(' ∉ text.toList → ')' ∉ text.toList →
      Segment [.comment text] (.comment ⟨text⟩)
  | setting {ts us i v} : Index ts i → Value us v →
      Segment (.hash :: (ts ++ .equals :: us)) (.setting ⟨i, v⟩)

inductive Segments : List Token → List Item → Prop where
  | nil : Segments [] []
  | cons {ts us item items} : Segment ts item → Segments us items →
      Segments (ts ++ us) (item :: items)

inductive Mark : List Token → Bool → Prop where
  | absent : Mark [] false
  | present : Mark [.operator (.binary .divide)] true

inductive LineNumber : List Token → Option Number → Prop where
  | absent : LineNumber [] none
  | present {n cls} : cls ≠ .real → Line.isLineNumber n.value = true →
      LineNumber [.letter 'N', .number n cls] (some (Number.normalized n.value))

inductive EndComment : List Token → Option String → Prop where
  | absent : EndComment [] none
  | present {text : String} : '(' ∉ text.toList → EndComment [.lineComment text] (some text)

inductive Line : List Token → GCode.Line → Prop where
  | mk {ts us vs ws deleted number comment items} : Mark ts deleted → LineNumber us number →
      Segments vs items → EndComment ws comment →
      Line (ts ++ (us ++ (vs ++ ws))) ⟨deleted, number, comment, items⟩

/-! ## Putting derivations together -/

theorem Tail.concat {ts us operands op v} (h : Tail ts operands) (hv : Value us v) :
    Tail (ts ++ .operator (.binary op) :: us) (operands ++ [(op, v)]) := by
  match h with
  | .nil => simpa using Tail.cons hv .nil
  | .cons hw ht => simpa using Tail.cons hw (ht.concat hv)

theorem Segments.concat {ts us items item} (h : Segments ts items) (hi : Segment us item) :
    Segments (ts ++ us) (items ++ [item]) := by
  induction h with
  | nil => simpa using Segments.cons hi .nil
  | cons hj _ ih => simpa using Segments.cons hj ih

theorem Segments.append {ts us items others} (h : Segments ts items) (h' : Segments us others) :
    Segments (ts ++ us) (items ++ others) := by
  induction h with
  | nil => exact h'
  | cons hi _ ih => simpa using Segments.cons hi ih

/-- A line without a comment goes on with another one that has neither a mark nor a number. -/
theorem Line.append {ts us} {first second : GCode.Line} (h : Line ts first) (hcomment : first.comment = none)
    (h' : Line us second) (hdeleted : second.deleted = false) (hnumber : second.number = none) :
    Line (ts ++ us) { first with items := first.items ++ second.items, comment := second.comment } := by
  cases h with
  | mk hmark hfirst hitems hend =>
      cases h' with
      | mk hmark' hsecond hitems' hend' =>
          cases hcomment
          cases hdeleted
          cases hnumber
          cases hend
          cases hmark'
          cases hsecond
          simpa using Line.mk hmark hfirst (hitems.append hitems') hend'

/-- The first token of a value is none that `#` would take as a name. -/
theorem Value.head_ne_name {ts v} (h : Value ts v) (text : String) : ts.head? ≠ some (.name text) := by
  cases h with
  | brackets h => cases h; simp
  | _ => simp

theorem Brackets.ne_nil {ts v} (h : Brackets ts v) : ts ≠ [] := by
  cases h; simp

theorem Value.ne_nil {ts v} (h : Value ts v) : ts ≠ [] := by
  cases h with
  | brackets h => exact h.ne_nil
  | _ => simp

end Grammar

end GCode
