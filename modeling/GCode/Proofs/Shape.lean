import GCode.Proofs.Binary64.Whole
import GCode.Proofs.Grammar.Reading
import GCode.Proofs.Scanning.Cutting

/-!
# The shape of what is read

Not every tree can be written so that it reads back. The shape says which trees the reader gives: an arc
tangent only stands where it is divided, an index that is a literal is stored as a number, and the parts
of a line meet their checks. The condition on literals is a parameter.
-/

namespace GCode

variable {literal : Number → Prop}

/-! ## Shapes -/

mutual
/-- `divided` says whether the value stands on the left of a division. -/
def RealValue.Shaped (literal : Number → Prop) (divided : Bool) : RealValue → Prop
  | .literal n => literal n
  | .parameter i => i.Shaped literal
  | .unary op arg => (op = .arcTangent → divided = true) ∧ arg.Shaped literal false
  | .binary op left right => left.Shaped literal (op = .divide) ∧ right.Shaped literal false

def ParameterIndex.Shaped (literal : Number → Prop) : ParameterIndex → Prop
  | .number _ => True
  | .named name => name ≠ "" ∧ ∀ c ∈ name.toList, ParameterIndex.isNameChar c = true
  | .expression v => v.literal? = none ∧ v.Shaped literal false
end

structure Word.Shaped (literal : Number → Prop) (w : Word) : Prop where
  letter : w.letter ∈ wordLetters
  value : w.value.Shaped literal false

structure Setting.Shaped (literal : Number → Prop) (s : Setting) : Prop where
  index : s.index.Shaped literal
  value : s.value.Shaped literal false

def Item.Shaped (literal : Number → Prop) : Item → Prop
  | .word w => w.Shaped literal
  | .comment c => '(' ∉ c.text.toList ∧ ')' ∉ c.text.toList
  | .setting s => s.Shaped literal

structure Line.Shaped (literal : Number → Prop) (line : Line) : Prop where
  number : ∀ n ∈ line.number, Line.isLineNumber n.value = true ∧ Number.normalized n.value = n
  comment : ∀ text ∈ line.comment, '(' ∉ text.toList ∧ Text.Trimmed Text.isBlank text.toList
  items : ∀ item ∈ line.items, item.Shaped literal

theorem Line.whole?_nonneg {x : Float} {n : ℤ} (h : isLineNumber x = true)
    (hn : Binary64.whole? x = some n) : 0 ≤ n := by
  rcases Int.lt_or_le n 0 with hneg | hpos
  · obtain ⟨hsign, hzero⟩ := Binary64.isNegative_of_whole?_neg hn hneg
    simp [isLineNumber, hsign, hzero] at h
  · exact hpos

theorem Line.isLineNumber_normalized {x : Float} (h : isLineNumber x = true) :
    isLineNumber (Number.normalized x).value = true := by
  rcases Number.normalized_cases x with ⟨n, hwhole, hn, hnorm⟩ | hnorm
  · have hnonneg := whole?_nonneg h hwhole
    have hsign : Binary64.isNegative (Binary64.ofInt n) = false := by
      rw [Binary64.isNegative_ofInt]
      exact decide_eq_false (by omega)
    rw [hnorm, Number.value_integer_ofInt hn, isLineNumber, Binary64.isFinite_ofInt hn, hsign]
    simp
  · rw [hnorm]
    exact h

/-! ## Derived trees -/

/-- What a derivation needs to know about a token. -/
def Token.Meets (literal : Number → Prop) : Token → Prop
  | .number n _ => literal n
  | .lineComment text => Text.Trimmed Text.isBlank text.toList
  | _ => True

/-- What may stand anywhere may stand on the left of a division. -/
theorem RealValue.Shaped.divided {v : RealValue} (h : v.Shaped literal false) (divided : Bool) :
    v.Shaped literal divided := by
  cases v with
  | unary op arg =>
      simp only [Shaped] at h ⊢
      exact ⟨fun hop => absurd (h.1 hop) Bool.false_ne_true, h.2⟩
  | _ => simpa only [Shaped] using h

theorem Operands.shaped_fold {operands : Operands} {first : RealValue}
    (hfirst : first.Shaped literal false) (h : ∀ next ∈ operands, next.2.Shaped literal false) :
    (Operands.fold first operands).Shaped literal false := by
  induction operands generalizing first with
  | nil => exact hfirst
  | cons next operands ih =>
      obtain ⟨hnext, hrest⟩ := List.forall_mem_cons.mp h
      apply ih _ hrest
      simp only [RealValue.Shaped]
      exact ⟨hfirst.divided _, hnext⟩

namespace Grammar

mutual
theorem Value.shaped {ts v} (h : Value ts v) (ht : ∀ t ∈ ts, t.Meets literal) :
    v.Shaped literal false := by
  match h with
  | .number n cls =>
      simp only [RealValue.Shaped]
      exact ht _ List.mem_cons_self
  | .brackets h => exact h.shaped ht
  | .parameter h =>
      simp only [RealValue.Shaped]
      exact h.shaped (List.forall_mem_cons.mp ht).2
  | .unary hop h =>
      simp only [RealValue.Shaped]
      exact ⟨fun hc => absurd hc hop, h.shaped (List.forall_mem_cons.mp ht).2⟩
  | .arcTangent hv hw =>
      simp only [List.forall_mem_cons, List.forall_mem_append] at ht
      obtain ⟨_, htv, _, htw⟩ := ht
      simp only [RealValue.Shaped]
      exact ⟨⟨fun _ => rfl, hv.shaped htv⟩, hw.shaped htw⟩

theorem Brackets.shaped {ts v} (h : Brackets ts v) (ht : ∀ t ∈ ts, t.Meets literal) :
    v.Shaped literal false := by
  match h with
  | .fold hv htail =>
      simp only [List.forall_mem_cons, List.forall_mem_append] at ht
      obtain ⟨_, htv, htus, _⟩ := ht
      exact Operands.shaped_fold (hv.shaped htv) (htail.shaped htus)

theorem Tail.shaped {ts operands} (h : Tail ts operands) (ht : ∀ t ∈ ts, t.Meets literal) :
    ∀ next ∈ operands, next.2.Shaped literal false := by
  match h with
  | .nil => simp
  | .cons hv htail =>
      simp only [List.forall_mem_cons, List.forall_mem_append] at ht
      obtain ⟨_, htv, htus⟩ := ht
      exact List.forall_mem_cons.mpr ⟨hv.shaped htv, htail.shaped htus⟩

theorem Index.shaped {ts i} (h : Index ts i) (ht : ∀ t ∈ ts, t.Meets literal) :
    i.Shaped literal := by
  match h with
  | .name hne hall =>
      simp only [ParameterIndex.Shaped]
      exact ⟨hne, hall⟩
  | .number _ _ => simp only [ParameterIndex.Shaped]
  | .expression hv hl =>
      simp only [ParameterIndex.Shaped]
      exact ⟨hl, hv.shaped ht⟩
end

theorem Word.shaped {ts w} (h : Word ts w) (ht : ∀ t ∈ ts, t.Meets literal) :
    w.Shaped literal := by
  obtain ⟨hc, hv⟩ := h
  exact ⟨hc, hv.shaped (List.forall_mem_cons.mp ht).2⟩

theorem Segment.shaped {ts item} (h : Segment ts item) (ht : ∀ t ∈ ts, t.Meets literal) :
    item.Shaped literal := by
  cases h with
  | word h => exact h.shaped ht
  | comment hl hr => exact ⟨hl, hr⟩
  | setting hi hv =>
      simp only [List.forall_mem_cons, List.forall_mem_append] at ht
      obtain ⟨_, hti, _, htv⟩ := ht
      exact ⟨hi.shaped hti, hv.shaped htv⟩

theorem Segments.shaped {ts items} (h : Segments ts items) (ht : ∀ t ∈ ts, t.Meets literal) :
    ∀ item ∈ items, item.Shaped literal := by
  induction h with
  | nil => simp
  | cons hitem _ ih =>
      obtain ⟨hthis, hrest⟩ := List.forall_mem_append.mp ht
      exact List.forall_mem_cons.mpr ⟨hitem.shaped hthis, ih hrest⟩

theorem LineNumber.shaped {ts number} (h : LineNumber ts number) :
    ∀ n ∈ number, GCode.Line.isLineNumber n.value = true ∧ Number.normalized n.value = n := by
  cases h with
  | absent => simp
  | present _ hn =>
      rintro _ ⟨⟩
      exact ⟨Line.isLineNumber_normalized hn, Number.normalized_value_normalized _⟩

theorem EndComment.shaped {ts comment} (h : EndComment ts comment)
    (ht : ∀ t ∈ ts, t.Meets literal) :
    ∀ text ∈ comment, '(' ∉ text.toList ∧ Text.Trimmed Text.isBlank text.toList := by
  cases h with
  | absent => simp
  | present hl =>
      rintro _ ⟨⟩
      exact ⟨hl, ht _ List.mem_cons_self⟩

theorem Line.shaped {ts line} (h : Line ts line) (ht : ∀ t ∈ ts, t.Meets literal) :
    line.Shaped literal := by
  obtain ⟨_, hnumber, hitems, hcomment⟩ := h
  simp only [List.forall_mem_append] at ht
  obtain ⟨_, _, htitems, htcomment⟩ := ht
  exact ⟨hnumber.shaped, hcomment.shaped htcomment, hitems.shaped htitems⟩

end Grammar

/-! ## Read texts -/

theorem Numeral.isNaN_number (n : Numeral) : Binary64.isNaN n.number.value = false := by
  rw [number]
  split <;> exact Binary64.isNaN_nearest _ _ _

/-- The tokens of an accepted text have no number that is NaN and no comment with blanks at its ends. -/
theorem meets_of_tokenize {text : String} {tokens : List PlacedToken}
    (h : tokenize text = .ok tokens) :
    ∀ t ∈ tokens.map (·.token), t.Meets fun n => Binary64.isNaN n.value = false := by
  obtain ⟨ps, rfl, hcut⟩ := exists_cut_of_tokenize h
  simp only [List.map_map, List.forall_mem_map]
  intro p hp
  have hspelled := hcut.spelled p hp
  change p.token.Meets _
  generalize p.token = t, (text.toList.drop p.position).take p.width = cs at hspelled
  cases hspelled with
  | number _ => exact Numeral.isNaN_number _
  | lineComment htext =>
      rw [Token.Meets, htext]
      exact Text.trimmed_trim _
  | _ => trivial

theorem Line.shaped_of_readLine {text : String} {line : Line} (h : readLine text = .ok line) :
    line.Shaped fun n => Binary64.isNaN n.value = false := by
  obtain ⟨tokens, htokens, hline⟩ := readLine_eq_ok_iff.mp h
  exact hline.shaped (meets_of_tokenize htokens)

/-- Whatever is read has the shape of what is read, and no literal in it is NaN. -/
theorem read_shaped :
    (∀ text line, readLine text = .ok line →
        line.Shaped fun n => Binary64.isNaN n.value = false) ∧
      (∀ text word, readWord text = .ok word →
        word.Shaped fun n => Binary64.isNaN n.value = false) ∧
      ∀ text value, readValue text = .ok value →
        value.Shaped (fun n => Binary64.isNaN n.value = false) false := by
  refine ⟨fun text line h => ?_, fun text word h => ?_, fun text value h => ?_⟩
  · obtain ⟨tokens, htokens, hline⟩ := readLine_eq_ok_iff.mp h
    exact hline.shaped (meets_of_tokenize htokens)
  · obtain ⟨tokens, htokens, hword⟩ := readWord_eq_ok_iff.mp h
    exact hword.shaped (meets_of_tokenize htokens)
  · obtain ⟨tokens, htokens, hvalue⟩ := readValue_eq_ok_iff.mp h
    exact hvalue.shaped (meets_of_tokenize htokens)

/-- An index in brackets, an index of an index, and an arc tangent between other operands. -/
theorem read_shaped_nested :
    (∃ line, readLine "/n10.0 x[#[5] + atan[1]/[-2] - 1] (c) ##<a>=abs[.5] ; end " = .ok line ∧
        line.Shaped fun n => Binary64.isNaN n.value = false) ∧
      (∃ word, readWord "a acos[0]" = .ok word ∧
        word.Shaped fun n => Binary64.isNaN n.value = false) ∧
      ∃ value, readValue "[atan[1]/[2] / #7]" = .ok value ∧
        value.Shaped (fun n => Binary64.isNaN n.value = false) false := by
  have hline : readLine "/n10.0 x[#[5] + atan[1]/[-2] - 1] (c) ##<a>=abs[.5] ; end " =
      .ok ⟨true, some (.integer 10), some "end",
        [.word ⟨'X', .binary .subtract (.binary .add (.parameter (.number 5))
            (.binary .divide (.unary .arcTangent (.literal (.integer 1))) (.literal (.integer (-2)))))
            (.literal (.integer 1))⟩,
          .comment ⟨"c"⟩,
          .setting ⟨.expression (.parameter (.named "a")),
            .unary .absoluteValue (.literal (.decimal (Binary64.nearest false 5 10)))⟩]⟩ := by
    decide +kernel
  have hword : readWord "a acos[0]" =
      .ok ⟨'A', .unary .arcCosine (.literal (.integer 0))⟩ := by
    decide +kernel
  have hvalue : readValue "[atan[1]/[2] / #7]" =
      .ok (.binary .divide (.binary .divide (.unary .arcTangent (.literal (.integer 1)))
        (.literal (.integer 2))) (.parameter (.number 7))) := by
    decide +kernel
  exact ⟨⟨_, hline, read_shaped.1 _ _ hline⟩, ⟨_, hword, read_shaped.2.1 _ _ hword⟩,
    ⟨_, hvalue, read_shaped.2.2 _ _ hvalue⟩⟩

end GCode
