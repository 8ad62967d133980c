import GCode.Proofs.Scanning.Cutting

/-!
# Number tokens

Every number token of a text is read from the characters of a numeral, also in front of an error. So a literal never
counts as zero because it cannot be read.
-/

namespace GCode

/-! ## Numbers of numerals -/

namespace Numeral

theorem number_eq_integer {n : Numeral} (h : n.fraction = none) {i : Int64} (hi : i.toInt = n.integer) :
    n.number = .integer i := by
  rw [number, if_pos, ← hi, Int64.ofInt_toInt]
  simp only [h, ← hi, Option.isNone_none, Bool.true_and, Bool.and_eq_true, decide_eq_true_eq]
  exact ⟨i.minValue_le_toInt, i.toInt_le⟩

theorem number_eq_decimal {n : Numeral} (h : n.fraction ≠ none ∨ ∀ i : Int64, i.toInt ≠ n.integer) :
    n.number = .decimal n.float := by
  rw [number, if_neg]
  simp only [Bool.and_eq_true, Option.isNone_iff_eq_none, decide_eq_true_eq]
  rintro ⟨⟨hnone, hlo⟩, hhi⟩
  rcases h with h | h
  · exact h hnone
  · exact h (Int64.ofInt n.integer) (Int64.toInt_ofInt_of_le hlo (Int.lt_add_one_of_le hhi))

theorem point_mem_spelling_iff {n : Numeral} (h : n.WellFormed) : '.' ∈ n.spelling ↔ n.fraction ≠ none := by
  rw [← List.contains_iff_mem, contains_point_spelling h, Option.isSome_iff_ne_none]

end Numeral

/-! ## Scanned numbers -/

theorem Lexeme.eq_literal_of_scan {a : Bool} {p : Nat} {c : Char} {cs : List Char} {lexeme : Lexeme}
    (h : scan a p c cs = .ok lexeme) (hnumber : lexeme.token.IsNumber) :
    Numeral.startsAt a (c :: cs) = true ∧ lexeme = literal (c :: cs) := by
  -- only the branch of numbers gives a number
  revert h
  fun_cases scan a p c cs with
  | case5 =>
      intro h
      rw [comment] at h
      split at h <;> cases h
      cases hnumber
  | case6 =>
      intro h
      rw [name] at h
      split at h
      · split at h <;> cases h
        cases hnumber
      · cases h
  | case8 _ hstart =>
      rw [if_pos hstart]
      rintro ⟨⟩
      exact ⟨hstart, rfl⟩
  | case9 _ hstart =>
      rw [if_neg hstart]
      intro h
      rw [keywordOrLetter] at h
      split at h
      · cases h
        cases hnumber
      · split at h <;> cases h
        cases hnumber
  | _ =>
      rintro ⟨⟩
      cases hnumber

namespace Cursor

/-- A token in a run was scanned where it stands. -/
theorem In.scanned {text : List Char} {cursor : Cursor} (h : cursor.In text) :
    ∀ t ∈ cursor.run.1, ∃ a c cs lexeme, text.drop t.position = c :: cs ∧
      Lexeme.scan a t.position c cs = .ok lexeme ∧ lexeme.token = t.token := by
  induction cursor using run.induct with
  | case1 cursor hnext => simp [run_of_none hnext]
  | case2 cursor e hnext => simp [run_of_error hnext]
  | case3 cursor token after hnext _ _ _ ih =>
      rw [run_of_ok hnext, List.forall_mem_cons]
      obtain ⟨_, _, _, _, _, hin, _⟩ := h.next hnext
      obtain ⟨c, cs, lexeme, hrest, hscan, rfl, _⟩ := scan_of_next? hnext
      exact ⟨⟨_, c, cs, lexeme, h.skipGap.1.rest.symm.trans hrest, hscan, rfl⟩, ih hin⟩

end Cursor

/-- The literal spells the numeral, so it can be read. Without a point the number is the exact integer, if it has 64
bits, and otherwise the nearest binary64 number. -/
structure Literal.Reads (text : List Char) (n : Numeral) (value : Number) : Prop where
  formed : n.WellFormed
  spelled : n.spelling = text
  number : value = number text
  float : float? text = some n.float
  integer : '.' ∉ text → ∀ i : Int64, i.toInt = n.integer → value = .integer i
  decimal : ('.' ∈ text ∨ ∀ i : Int64, i.toInt ≠ n.integer) → value = .decimal n.float

theorem Literal.reads_spelling {n : Numeral} (h : n.WellFormed) : Reads n.spelling n n.number where
  formed := h
  spelled := rfl
  number := (number_spelling h).symm
  float := float?_spelling h
  integer := fun hpoint _ hi =>
    Numeral.number_eq_integer (not_not.mp (mt (Numeral.point_mem_spelling_iff h).mpr hpoint)) hi
  decimal := fun hreal =>
    Numeral.number_eq_decimal (hreal.imp_left (Numeral.point_mem_spelling_iff h).mp)

/-- Every number token is read from the characters where it stands, which spell a numeral. -/
theorem number_token_read (text : String) :
    ∀ t ∈ (Cursor.start text.toList).run.1, ∀ value cls, t.token = .number value cls →
      ∃ n : Numeral, Literal.Reads (Literal.cut (text.toList.drop t.position)) n value := by
  intro t ht value cls htoken
  obtain ⟨a, c, cs, lexeme, hdrop, hscan, hlexeme⟩ := (Cursor.In.start text.toList).scanned t ht
  rw [htoken] at hlexeme
  obtain ⟨hstart, rfl⟩ := Lexeme.eq_literal_of_scan hscan (by rw [hlexeme]; trivial)
  obtain ⟨hformed, _⟩ := Numeral.scan_split hstart
  rw [Lexeme.literal_eq hstart] at hlexeme
  cases hlexeme
  rw [hdrop, Literal.cut_eq]
  exact ⟨_, Literal.reads_spelling hformed⟩

/-- The second number has too many bits, and the text ends in an error. -/
theorem number_token_read_long :
    (∃ n, Literal.Reads ".5".toList n (.decimal (Binary64.nearest false 5 10))) ∧
      (∃ n, Literal.Reads "-99999999999999999999".toList n
        (.decimal (Binary64.nearest true 99999999999999999999 1))) ∧
      ∃ n, Literal.Reads "007".toList n (.integer 7) := by
  have hrun : (Cursor.start "x.5y-99999999999999999999 z007(".toList).run.1 =
      [⟨.letter 'X', 0⟩, ⟨.number (.decimal (Binary64.nearest false 5 10)) .positiveReal, 1⟩,
        ⟨.letter 'Y', 3⟩,
        ⟨.number (.decimal (Binary64.nearest true 99999999999999999999 1)) .real, 4⟩,
        ⟨.letter 'Z', 26⟩, ⟨.number (.integer 7) .positiveInteger, 27⟩] := by
    decide +kernel
  have hread := number_token_read "x.5y-99999999999999999999 z007("
  rw [hrun] at hread
  simp only [List.forall_mem_cons] at hread
  obtain ⟨_, hshort, _, hlong, _, hwhole, _⟩ := hread
  exact ⟨hshort _ _ rfl, hlong _ _ rfl, hwhole _ _ rfl⟩

end GCode
