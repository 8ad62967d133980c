import GCode.Proofs.Grammar.Reading
import GCode.Proofs.Scanning.Cutting
import GCode.Text.DecimalDigit

/-!
# Blank texts

No token starts with a blank. So a blank text has no tokens, and it is accepted exactly if its blanks are
spaces and tabs; then it is a line without parts.
-/

namespace GCode

/-! ## Blanks -/

namespace Text

theorem toNat_of_isBlank {c : Char} (h : isBlank c = true) : c.toNat ≤ 0x20 ∨ 0x85 ≤ c.toNat := by
  simp only [isBlank, Bool.or_eq_true, Bool.and_eq_true, decide_eq_true_eq] at h
  omega

theorem toLower_of_toNat {c : Char} (h : ¬ (65 ≤ c.toNat ∧ c.toNat ≤ 90)) : c.toLower = c := by
  refine dif_neg ?_
  simp only [ge_iff_le, UInt32.le_iff_toNat_le]
  exact h

theorem toUpper_of_toNat {c : Char} (h : ¬ (97 ≤ c.toNat ∧ c.toNat ≤ 122)) : c.toUpper = c := by
  refine dif_neg ?_
  simp only [UInt32.le_iff_toNat_le]
  exact h

theorem toLower_of_isBlank {c : Char} (h : isBlank c = true) : c.toLower = c := by
  have hn := toNat_of_isBlank h
  exact toLower_of_toNat (by omega)

theorem toUpper_of_isBlank {c : Char} (h : isBlank c = true) : c.toUpper = c := by
  have hn := toNat_of_isBlank h
  exact toUpper_of_toNat (by omega)

theorem isDigit_of_isBlank {c : Char} (h : isBlank c = true) : c.isDigit = false := by
  have hn := toNat_of_isBlank h
  rw [← Bool.not_eq_true, Char.isDigit_iff_toNat]
  change ¬ (48 ≤ c.toNat ∧ c.toNat ≤ 57)
  omega

theorem isDecimalDigit_of_isDigit {c : Char} (h : c.isDigit = true) : isDecimalDigit c = true := by
  have hc := digit_le h
  refine List.any_eq_true.mpr ⟨0x30, by decide, ?_⟩
  simp only [Bool.and_eq_true, decide_eq_true_eq]
  omega

theorem isDecimalDigit_of_isBlank {c : Char} (h : isBlank c = true) : isDecimalDigit c = false := by
  have hzeros : ∀ n ∈ scriptZeros, n = 0x30 ∨ 0xa0 < n ∧ n + 10 ≤ 0x1680 ∨ 0x1680 < n ∧ n + 10 ≤ 0x2000 ∨
      0x3000 < n := by decide
  rw [isDecimalDigit, List.any_eq_false]
  intro n hn
  have hrange := hzeros n hn
  simp only [isBlank, Bool.or_eq_true, Bool.and_eq_true, decide_eq_true_eq] at h ⊢
  omega

theorem isAlpha_of_toNat {c : Char} (h : c.toNat < 65 ∨ 122 < c.toNat) : c.isAlpha = false := by
  change (decide ('A'.val ≤ c.val ∧ c.val ≤ 'Z'.val) ||
    (decide ('a'.val ≤ c.val) && decide (c.val ≤ 'z'.val))) = false
  simp only [Bool.or_eq_false_iff, Bool.and_eq_false_iff, decide_eq_false_iff_not, UInt32.le_iff_toNat_le]
  change ¬ (65 ≤ c.toNat ∧ c.toNat ≤ 90) ∧ (¬ 97 ≤ c.toNat ∨ ¬ c.toNat ≤ 122)
  omega

theorem isAlpha_of_isBlank {c : Char} (h : isBlank c = true) : c.isAlpha = false := by
  have hn := toNat_of_isBlank h
  exact isAlpha_of_toNat (by omega)

theorem isAlpha_of_isDigit {c : Char} (h : c.isDigit = true) : c.isAlpha = false := by
  have hn := digit_le h
  exact isAlpha_of_toNat (by omega)

theorem isBlank_of_isAlpha {c : Char} (h : c.isAlpha = true) : isBlank c = false := by
  cases hblank : isBlank c with
  | false => rfl
  | true => cases (isAlpha_of_isBlank hblank).symm.trans h

theorem isBlank_of_isDigit {c : Char} (h : c.isDigit = true) : isBlank c = false := by
  cases hblank : isBlank c with
  | false => rfl
  | true => cases (isDigit_of_isBlank hblank).symm.trans h

theorem isBlank_of_isLineEnd {c : Char} (h : isLineEnd c = true) : isBlank c = true := by
  simp only [isLineEnd, Bool.or_eq_true, decide_eq_true_eq] at h
  rcases h with rfl | rfl <;> rfl

end Text

theorem isBlank_of_isGap {c : Char} (h : isGap c = true) : Text.isBlank c = true := by
  rcases isGap_iff.mp h with rfl | rfl <;> rfl

/-! ## The ends of a spelling -/

theorem Operator.isBlank_keyword (op : Operator) : op.keyword.toList.any Text.isBlank = false := by
  revert op
  exact of_longestFirst (by decide)

theorem Operator.isBlank_of_spells {op : Operator} {cs : List Char}
    (h : cs.map Char.toLower = op.keyword.toList) : ∀ c ∈ cs, Text.isBlank c = false := by
  intro c hc
  cases hblank : Text.isBlank c with
  | false => rfl
  | true =>
      have hmem := List.mem_map_of_mem (f := Char.toLower) hc
      rw [h, Text.toLower_of_isBlank hblank] at hmem
      exact absurd hblank (List.any_eq_false.mp op.isBlank_keyword c hmem)

theorem Numeral.isBlank_spelling {n : Numeral} (h : n.WellFormed) :
    ∀ c ∈ n.spelling, Text.isBlank c = false := by
  intro c hc
  rcases mem_spelling h c hc with hdigit | rfl | rfl | rfl
  · exact Text.isBlank_of_isDigit hdigit
  all_goals rfl

theorem isBlank_of_letter {c : Char} (h : c.toUpper = 'N' ∨ c.toUpper ∈ wordLetters) :
    Text.isBlank c = false := by
  cases hblank : Text.isBlank c with
  | false => rfl
  | true =>
      rw [Text.toUpper_of_isBlank hblank] at h
      have hletters : ('N' :: wordLetters).any Text.isBlank = false := by decide
      exact absurd hblank (List.any_eq_false.mp hletters c (List.mem_cons.mpr h))

/-- No spelling starts with a blank. -/
theorem Token.Spelled.isBlank_head {t : Token} {c : Char} {cs : List Char} (h : t.Spelled (c :: cs)) :
    Text.isBlank c = false := by
  generalize hspell : c :: cs = ds at h
  cases h with
  | letter hc =>
      cases hspell
      exact isBlank_of_letter hc
  | number hn => exact Numeral.isBlank_spelling hn c (hspell ▸ List.mem_cons_self)
  | operator hop => exact Operator.isBlank_of_spells hop c (hspell ▸ List.mem_cons_self)
  | _ =>
      cases hspell
      rfl

/-- Only a comment that runs to the end can end with a blank. -/
theorem Token.Spelled.isBlank_getLast {t : Token} {c : Char} {cs : List Char} (h : t.Spelled cs)
    (hline : ∀ text, t ≠ .lineComment text) (hc : c ∈ cs.getLast?) : Text.isBlank c = false := by
  cases h with
  | letter hletter =>
      cases hc
      exact isBlank_of_letter hletter
  | number hn => exact Numeral.isBlank_spelling hn c (List.mem_of_getLast? hc)
  | operator hop => exact Operator.isBlank_of_spells hop c (List.mem_of_getLast? hc)
  | name | comment =>
      rw [← List.cons_append, List.getLast?_concat] at hc
      cases hc
      rfl
  | lineComment => exact absurd rfl (hline _)
  | _ =>
      cases hc
      rfl

/-! ## Blank texts -/

theorem Cursor.run_of_isBlank (cursor : Cursor) (h : ∀ c ∈ cursor.rest, Text.isBlank c = true) :
    cursor.run.1 = [] ∧ (cursor.run.2 = none ↔ ∀ c ∈ cursor.rest, isGap c = true) := by
  have hcut := List.takeWhile_append_dropWhile (p := isGap) (l := cursor.rest)
  have hstop := Text.stops_dropWhile isGap cursor.rest
  cases hrest : cursor.skipGap.rest with
  | nil =>
      have hdrop : cursor.rest.dropWhile isGap = [] := hrest
      have hnext : cursor.next? = none := by simp only [next?, hrest]
      rw [hdrop, List.append_nil] at hcut
      rw [run_of_none hnext, ← hcut]
      exact ⟨rfl, fun _ => Text.all_of_mem_takeWhile, fun _ => rfl⟩
  | cons c cs =>
      have hdrop : cursor.rest.dropWhile isGap = c :: cs := hrest
      have hc : c ∈ cursor.rest := (List.dropWhile_sublist isGap).mem (hdrop ▸ List.mem_cons_self)
      rw [hdrop, Text.stops_cons] at hstop
      cases hscan : Lexeme.scan cursor.skipGap.afterOperand cursor.skipGap.position c cs with
      | error e =>
          have hnext : cursor.next? = some (.error e) := by simp only [next?, hrest, hscan]
          rw [run_of_error hnext]
          refine ⟨rfl, fun hnone => ?_, fun hgap => ?_⟩
          · cases hnone
          · rw [hgap c hc] at hstop
            cases hstop
      | ok lexeme =>
          have hfits := Lexeme.scan_fits hscan
          have hspelled := hfits.spelled
          rw [← Nat.sub_add_cancel hfits.width_pos, List.take_succ_cons] at hspelled
          have hblank := hspelled.isBlank_head
          rw [h c hc] at hblank
          cases hblank

/-- The tokens of a blank text, if it is accepted. -/
theorem tokenize_of_isBlank {text : String} (h : ∀ c ∈ text.toList, Text.isBlank c = true)
    {tokens : List PlacedToken} :
    tokenize text = .ok tokens ↔ tokens = [] ∧ ∀ c ∈ text.toList, isGap c = true := by
  obtain ⟨htokens, hgaps⟩ := Cursor.run_of_isBlank (.start text.toList) h
  rw [tokenize, Cursor.tokens_eq_ok_iff, Prod.ext_iff, htokens, hgaps]
  simp only [eq_comm]
  rfl

namespace Grammar

theorem line_nil_iff {line : GCode.Line} : Line [] line ↔ line = {} := by
  rw [← steps_start_iff]
  simp [Reader.State.line?, eq_comm]

end Grammar

/-- A blank text is a line exactly if what is left of it in front of the line end is spaces and tabs. -/
theorem readLine_of_isBlank {text : String} (h : Reader.isBlank text = true) {line : Line} :
    readLine text = .ok line ↔ line = {} ∧ ∀ c ∈ (Reader.lineText text).toList, isGap c = true := by
  have hblank : ∀ c ∈ (Reader.lineText text).toList, Text.isBlank c = true := by
    intro c hc
    rw [Reader.lineText, String.toList_ofList, Text.dropEndWhile, List.mem_reverse] at hc
    exact List.all_eq_true.mp h c (List.mem_reverse.mp ((List.dropWhile_sublist _).mem hc))
  simp only [readLine_eq_ok_iff, tokenize_of_isBlank hblank]
  constructor
  · rintro ⟨_, ⟨rfl, hgap⟩, hline⟩
    exact ⟨Grammar.line_nil_iff.mp hline, hgap⟩
  · rintro ⟨rfl, hgap⟩
    exact ⟨[], ⟨rfl, hgap⟩, Grammar.line_nil_iff.mpr rfl⟩

end GCode
