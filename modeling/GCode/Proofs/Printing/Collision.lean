import GCode.Proofs.Printing.Scans

/-!
# Letters in front of values

The printer compares the bytes of a value with the rest of a keyword, and the scanner compares characters up to the
longest keyword. Both find a keyword at the same places, so a printed word starts with its letter.
-/

namespace GCode

/-! ## Fronts of texts -/

namespace Text

/-- A capital letter and its small letter take one byte. -/
theorem utf8Size_toLower (c : Char) : c.toLower.utf8Size = c.utf8Size := by
  by_cases h : c.val ≥ 'A'.val ∧ c.val ≤ 'Z'.val
  · have hlower : c.toLower.val = c.val + ('a'.val - 'A'.val) := congrArg Char.val (dif_pos h)
    have hle : c.val.toNat ≤ 90 := UInt32.le_iff_toNat_le.mp h.2
    have hsmall : c.toLower.val.toNat = c.val.toNat + 32 := by
      rw [hlower, UInt32.toNat_add, Nat.mod_eq_of_lt]
      · rfl
      · change c.val.toNat + 32 < _
        omega
    rw [Char.utf8Size_eq_one_iff.mpr, Char.utf8Size_eq_one_iff.mpr]
    · exact UInt32.le_trans h.2 (by decide)
    · rw [UInt32.le_iff_toNat_le, hsmall]
      change c.val.toNat + 32 ≤ 127
      omega
  · rw [show c.toLower = c from dif_neg h]

theorem size_map_toLower (cs : List Char) : size (cs.map Char.toLower) = size cs := by
  induction cs with
  | nil => rfl
  | cons c cs ih => rw [List.map_cons, size_cons, size_cons, ih, utf8Size_toLower]

/-- A cut after so many bytes is between two characters exactly if a front of the text takes them. -/
theorem front?_eq_some_iff {n : Nat} {cs front : List Char} :
    front? n cs = some front ↔ front <+: cs ∧ size front = n := by
  fun_induction front? n cs generalizing front with
  | case1 cs =>
      cases front with
      | nil => simp
      | cons c front =>
          have hpos := c.utf8Size_pos
          simp
          omega
  | case2 n =>
      simp only [reduceCtorEq, List.prefix_nil, false_iff, not_and]
      rintro rfl
      simp
  | case3 n c cs hle ih =>
      cases front with
      | nil => simp
      | cons d front =>
          simp only [Option.map_eq_some_iff, ih, List.cons.injEq, List.cons_prefix_cons, size_cons]
          constructor
          · rintro ⟨_, ⟨hfront, hsize⟩, rfl, rfl⟩
            exact ⟨⟨rfl, hfront⟩, by omega⟩
          · rintro ⟨⟨rfl, hfront⟩, hsize⟩
            exact ⟨front, ⟨hfront, by omega⟩, rfl, rfl⟩
  | case4 n c cs hle =>
      cases front with
      | nil => simp
      | cons d front =>
          simp only [reduceCtorEq, List.cons_prefix_cons, size_cons, false_iff, not_and]
          rintro ⟨rfl, _⟩
          omega

/-- Comparing the bytes at the front comes to the same as comparing characters. -/
theorem any_front?_iff {ks cs : List Char} :
    ((front? (size ks) cs).any fun front => front.map Char.toLower == ks.map Char.toLower) = true ↔
      startsIgnoringCase ks cs = true := by
  rw [Option.any_eq_true, startsIgnoringCase_iff]
  simp only [front?_eq_some_iff, beq_iff_eq]
  constructor
  · rintro ⟨front, ⟨hfront, _⟩, hsame⟩
    rw [← hsame]
    exact hfront.map _
  · intro h
    have hsame : (cs.take ks.length).map Char.toLower = ks.map Char.toLower := by
      rw [List.map_take, List.prefix_iff_eq_take.mp h, List.length_map]
    -- as many characters take as many bytes, since they are the same in small letters
    refine ⟨cs.take ks.length, ⟨List.take_prefix _ _, ?_⟩, hsame⟩
    rw [← size_map_toLower, hsame, size_map_toLower]

end Text

/-! ## Collisions -/

theorem Operator.atFront?_letter {c : Char} (h : c ∈ wordLetters) : atFront? [c] = none := by
  have hall : wordLetters.all (fun c => (atFront? [c]).isNone) = true := by decide
  simpa using List.all_eq_true.mp hall c h

namespace Word

theorem completes_keyword {letter : Char} {text : List Char} (op : Operator) :
    completes letter text op.keyword.toList = true ↔
      Text.startsIgnoringCase op.keyword.toList (letter :: text) = true := by
  cases hkey : op.keyword.toList with
  | nil =>
      have hpos := op.keyword_length_pos
      rw [← String.length_toList, hkey] at hpos
      cases hpos
  | cons k ks =>
      rw [completes, Text.startsIgnoringCase, Bool.and_eq_true, Bool.and_eq_true, Text.any_front?_iff]

/-- The printer's check and the scanner's search find the same keywords. -/
theorem collides_eq (letter : Char) (text : String) :
    collides letter text = (Operator.atFront? (letter :: text.toList)).isSome := by
  rw [Bool.eq_iff_iff, collides, List.any_eq_true, Operator.atFront?, List.find?_isSome]
  simp only [completes_keyword, Operator.mem_all, Operator.mem_longestFirst, true_and]

theorem next?_of_collides {letter : Char} {text : String} (hletter : letter ∈ wordLetters)
    (h : collides letter text = true) (p : Nat) (a : Bool) :
    ∃ op after, Cursor.next? ⟨p, a, letter :: text.toList⟩ = some (.ok (⟨.operator op, p⟩, after)) := by
  have hmem := List.mem_cons_of_mem 'N' hletter
  rw [collides_eq, Option.isSome_iff_exists] at h
  obtain ⟨op, hop⟩ := h
  have hscan := Lexeme.scan_of_letter hmem a p text.toList
  rw [hop] at hscan
  exact ⟨op, _, Cursor.next?_of_scan (Lexeme.isGap_of_letter hmem) hscan op.keyword_length_pos⟩

theorem next?_of_not_collides {letter : Char} {text : String} (hletter : letter ∈ wordLetters)
    (h : collides letter text = false) (p : Nat) (a : Bool) :
    Cursor.next? ⟨p, a, letter :: text.toList⟩ =
      some (.ok (⟨.letter letter, p⟩, ⟨p + 1, false, text.toList⟩)) := by
  have hmem := List.mem_cons_of_mem 'N' hletter
  rw [collides_eq, Option.isSome_eq_false_iff, Option.isNone_iff_eq_none] at h
  have hscan := Lexeme.scan_of_letter hmem a p text.toList
  rw [h] at hscan
  exact Cursor.next?_of_scan (Lexeme.isGap_of_letter hmem) hscan Nat.one_pos

/-- A space keeps the letter from reading as a keyword. -/
theorem not_collides_space {letter : Char} (hletter : letter ∈ wordLetters) (value : String) :
    collides letter (" " ++ value) = false := by
  have hfront : Operator.atFront? ([letter] ++ (" " ++ value).toList) = none := by
    rw [Operator.atFront?_append, Operator.atFront?_letter hletter]
    rw [String.toList_append]
    rintro _ ⟨⟩
    exact Operator.free_space
  rw [collides_eq, ← List.singleton_append, hfront]
  rfl

/-- What stands behind the letter in the text of a word reads as no part of a keyword. -/
theorem exists_text_eq (w : Word) (hletter : w.letter ∈ wordLetters) :
    ∃ value : String, w.text.toList = w.letter :: value.toList ∧ collides w.letter value = false := by
  cases h : collides w.letter w.value.text with
  | true => exact ⟨" " ++ w.value.text, by simp [text, h], not_collides_space hletter _⟩
  | false => exact ⟨w.value.text, by simp [text, h], h⟩

/-- In front of any value, the check of the printer holds exactly if the scanner reads an operator where the letter
stands. So the printed text of a word starts with its letter. -/
theorem collides_predicts_scan :
    (∀ letter ∈ wordLetters, ∀ (value : String) (p : Nat) (a : Bool),
      (collides letter value = true ↔
        ∃ op after, Cursor.next? ⟨p, a, letter :: value.toList⟩ =
          some (.ok (⟨.operator op, p⟩, after))) ∧
      (collides letter value = false ↔
        Cursor.next? ⟨p, a, letter :: value.toList⟩ =
          some (.ok (⟨.letter letter, p⟩, ⟨p + 1, false, value.toList⟩)))) ∧
    ∀ w : Word, w.letter ∈ wordLetters →
      (Cursor.start w.text.toList).next? =
        some (.ok (⟨.letter w.letter, 0⟩, ⟨1, false, w.text.toList.tail⟩)) := by
  constructor
  · intro letter hletter value p a
    cases h : collides letter value with
    | true =>
        obtain ⟨op, after, hnext⟩ := next?_of_collides hletter h p a
        exact ⟨iff_of_true rfl ⟨op, after, hnext⟩, by simp [hnext]⟩
    | false =>
        have hnext := next?_of_not_collides hletter h p a
        exact ⟨by simp [hnext], iff_of_true rfl hnext⟩
  · intro w hletter
    obtain ⟨value, htext, hcollides⟩ := w.exists_text_eq hletter
    rw [Cursor.start, htext]
    exact next?_of_not_collides hletter hcollides 0 false

/-- `A` before `cos[0]` reads as an arc cosine, and is printed apart from it. The second value ends inside a keyword's
bytes, in the middle of a character. -/
theorem collides_predicts_scan_arcCosine :
    collides 'A' "cos[0]" = true ∧
      (∃ op after, Cursor.next? ⟨0, false, 'A' :: "cos[0]".toList⟩ =
        some (.ok (⟨.operator op, 0⟩, after))) ∧
      collides 'A' "co€" = false ∧
      Cursor.next? ⟨0, false, 'A' :: "co€".toList⟩ =
        some (.ok (⟨.letter 'A', 0⟩, ⟨1, false, "co€".toList⟩)) ∧
      (Cursor.start (Word.mk 'A' (.unary .cosine (.literal (.integer 0)))).text.toList).next? =
        some (.ok (⟨.letter 'A', 0⟩, ⟨1, false, " cos[0]".toList⟩)) := by
  have hletter : 'A' ∈ wordLetters := by decide
  have hcos : collides 'A' "cos[0]" = true := by decide
  have hcut : collides 'A' "co€" = false := by decide
  obtain ⟨hscan, hword⟩ := collides_predicts_scan
  exact ⟨hcos, (hscan 'A' hletter "cos[0]" 0 false).1.mp hcos, hcut,
    (hscan 'A' hletter "co€" 0 false).2.mp hcut,
    hword ⟨'A', .unary .cosine (.literal (.integer 0))⟩ hletter⟩

end Word

end GCode
