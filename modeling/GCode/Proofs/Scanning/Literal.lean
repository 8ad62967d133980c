import GCode.Proofs.Scanning.Numeral
import GCode.Token.Scan

/-!
# Number literals

The characters that the scanner collects spell the longest numeral, so they can always be read.
-/

namespace GCode

theorem Numeral.point_notMem_spelling {n : Numeral} (h : n.WellFormed) (hnone : n.fraction = none) :
    '.' ∉ n.spelling := by
  intro hmem
  rw [spelling, hnone, List.mem_append, List.mem_append] at hmem
  rcases hmem with (hsign | hwhole) | hfraction
  · obtain ⟨s, _, hs⟩ := Option.map_eq_some_iff.mp (Option.mem_toList.mp hsign)
    cases s <;> cases hs
  · have hdigit := h.whole '.' hwhole
    rw [isDigit_point] at hdigit
    cases hdigit
  · cases hfraction

/-- A point is in the spelling if there is a fraction, and only then. -/
theorem Numeral.contains_point_spelling {n : Numeral} (h : n.WellFormed) :
    n.spelling.contains '.' = n.fraction.isSome := by
  cases hfraction : n.fraction with
  | none => simpa using point_notMem_spelling h hfraction
  | some ds => simp [spelling, hfraction]

theorem Numeral.head?_spelling {n : Numeral} (h : n.WellFormed) :
    n.spelling.head? = some '-' ↔ n.isNegative = true := by
  rw [isNegative, decide_eq_true_eq, spelling_eq]
  cases hsign : n.sign with
  | some sign => cases sign <;> simp [Sign.char]
  | none =>
      cases hunsigned : n.unsigned with
      | nil => simp
      | cons c cs =>
          have hc := ofChar?_head_unsigned h (show n.unsigned ++ [] = c :: cs by rw [List.append_nil, hunsigned])
          simp only [Option.map_none, Option.toList_none, List.nil_append, List.head?_cons, Option.some.injEq,
            reduceCtorEq, iff_false]
          rintro rfl
          cases hc

theorem Numeral.wellFormed_iff {n : Numeral} :
    n.WellFormed ↔ (∀ c ∈ n.whole, c.isDigit = true) ∧ (∀ ds ∈ n.fraction, ∀ c ∈ ds, c.isDigit = true) ∧
      n.whole ++ n.fraction.getD [] ≠ [] := by
  have hdigits : n.whole ++ n.fraction.getD [] ≠ [] ↔ n.whole ≠ [] ∨ ∃ ds ∈ n.fraction, ds ≠ [] := by
    cases n.fraction <;> simp [imp_iff_not_or]
  rw [hdigits]
  exact ⟨fun h => ⟨h.whole, h.fraction, h.digits⟩, fun h => ⟨h.1, h.2.1, h.2.2⟩⟩

theorem Numeral.number_cases (n : Numeral) : (∃ i, n.number = .integer i) ∨ n.number = .decimal n.float := by
  rw [number]
  split
  · exact .inl ⟨_, rfl⟩
  · exact .inr rfl

theorem Numeral.exists_scan_eq (cs : List Char) : ∃ sign ds, scan cs = scanUnsigned sign ds := by
  cases cs with
  | nil => exact ⟨none, [], rfl⟩
  | cons c cs =>
      rw [scan]
      cases Sign.ofChar? c with
      | some sign => exact ⟨_, _, rfl⟩
      | none => exact ⟨_, _, rfl⟩

namespace Literal

/-! ## Collecting -/

theorem digits_true (cs : List Char) : digits true cs = Text.digits cs := by
  induction cs with
  | nil => rfl
  | cons c cs ih =>
      simp only [digits, Bool.not_true, Bool.and_false, Bool.false_eq_true, ↓reduceIte, ih, Text.digits,
        List.takeWhile_cons]

/-- The loop with its flag takes digits, a point, and digits again. -/
theorem digits_false (sign : Option Sign) (cs : List Char) :
    digits false cs = (Numeral.scanUnsigned sign cs).unsigned := by
  induction cs with
  | nil => rfl
  | cons c cs ih =>
      by_cases hc : c.isDigit = true
      · have hstep : (Numeral.scanUnsigned sign (c :: cs)).unsigned =
            c :: (Numeral.scanUnsigned sign cs).unsigned := by
          simp only [Numeral.scanUnsigned, Text.digits, List.takeWhile_cons, hc, ↓reduceIte, List.length_cons,
            List.drop_succ_cons]
          split <;> rfl
        rw [digits, if_pos hc, ih, hstep]
      · have hdigits : Text.digits (c :: cs) = [] := by simp [Text.digits, hc]
        by_cases hpoint : c = '.'
        · subst hpoint
          simp [digits, isDigit_point, digits_true, Numeral.scanUnsigned, hdigits, Numeral.unsigned]
        · simp [digits, hc, hpoint, Numeral.scanUnsigned, hdigits, Numeral.unsigned]

theorem cut_eq (cs : List Char) : cut cs = (Numeral.scan cs).spelling := by
  cases cs with
  | nil => rfl
  | cons c cs =>
      rw [cut, Numeral.scan, Numeral.spelling_eq]
      cases hsign : Sign.ofChar? c with
      | some sign =>
          simp [digits_false (some sign), Sign.char_of_ofChar? hsign]
      | none => simp [digits_false none]

/-! ## Reading -/

/-- Reading a whole text takes exactly the spellings with a digit. -/
theorem numeral?_eq_some_iff {text : List Char} {n : Numeral} :
    numeral? text = some n ↔ n.WellFormed ∧ n.spelling = text := by
  simp only [numeral?, Option.ite_none_right_eq_some, Bool.and_eq_true, decide_eq_true_eq, Bool.not_eq_true',
    List.isEmpty_eq_false_iff]
  constructor
  · rintro ⟨⟨hspelling, hdigits⟩, ⟨⟩⟩
    obtain ⟨sign, ds, hscan⟩ := Numeral.exists_scan_eq text
    refine ⟨Numeral.wellFormed_iff.mpr ⟨?_, ?_, hdigits⟩, hspelling⟩
    · rw [hscan]
      exact Numeral.isDigit_of_mem_whole sign ds
    · rw [hscan]
      exact Numeral.isDigit_of_mem_fraction sign ds
  · rintro ⟨hformed, rfl⟩
    have hscan : Numeral.scan (n.spelling ++ []) = n := Numeral.scan_spelling hformed ⟨by simp, by simp⟩
    rw [List.append_nil] at hscan
    rw [hscan]
    exact ⟨⟨rfl, (Numeral.wellFormed_iff.mp hformed).2.2⟩, rfl⟩

theorem float?_spelling {n : Numeral} (h : n.WellFormed) : float? n.spelling = some n.float := by
  rw [float?, numeral?_eq_some_iff.mpr ⟨h, rfl⟩, Option.map_some]

theorem float_spelling {n : Numeral} (h : n.WellFormed) : float n.spelling = n.float := by
  rw [float, float?_spelling h, Option.getD_some]

theorem number_spelling {n : Numeral} (h : n.WellFormed) : number n.spelling = n.number := by
  rw [number, Numeral.contains_point_spelling h, integer?, numeral?_eq_some_iff.mpr ⟨h, rfl⟩, Option.map_some,
    float_spelling h]
  cases hfraction : n.fraction with
  | none =>
      rcases n.number_cases with ⟨i, hi⟩ | hi <;> rw [hi] <;> rfl
  | some ds => simp [Numeral.number, hfraction]

theorem classify_spelling {n : Numeral} (h : n.WellFormed) : classify n.spelling = n.classify := by
  simp only [classify, Numeral.contains_point_spelling h, float_spelling h, Numeral.classify,
    Numeral.head?_spelling h]
  cases n.fraction <;> rfl

end Literal

namespace Lexeme

/-- The lexeme of a numeral. -/
def numeral (n : Numeral) : Lexeme :=
  ⟨.number n.number n.classify, n.spelling.length⟩

theorem literal_eq {a : Bool} {cs : List Char} (h : Numeral.startsAt a cs = true) :
    literal cs = numeral (Numeral.scan cs) := by
  have hformed := (Numeral.scan_split h).1
  simp only [literal, Literal.cut_eq, Literal.number_spelling hformed, Literal.classify_spelling hformed, numeral]

end Lexeme

end GCode
