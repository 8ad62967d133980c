import GCode.Numeral
import GCode.Proofs.Text

/-!
# Scanning numerals

The scanner takes the longest numeral at the front of a text, and a well-formed numeral is scanned from
its spelling whenever what follows cannot be part of it.
-/

namespace GCode

theorem isDigit_point : Char.isDigit '.' = false := by
  decide

namespace Sign

theorem ofChar?_char (s : Sign) : ofChar? s.char = some s := by
  cases s <;> rfl

theorem char_of_ofChar? {c : Char} {s : Sign} (h : ofChar? c = some s) : s.char = c := by
  rw [ofChar?] at h
  split at h
  · cases h; symm; assumption
  · split at h
    · cases h; symm; assumption
    · cases h

theorem ofChar?_of_isDigit {c : Char} (h : c.isDigit = true) : ofChar? c = none := by
  have hp : c ≠ '+' := by rintro rfl; revert h; decide
  have hm : c ≠ '-' := by rintro rfl; revert h; decide
  simp [ofChar?, hp, hm]

end Sign

namespace Numeral

/-- There is at least one digit, and nothing but digits besides the sign and the point. -/
structure WellFormed (n : Numeral) : Prop where
  whole : ∀ c ∈ n.whole, c.isDigit = true
  fraction : ∀ ds ∈ n.fraction, ∀ c ∈ ds, c.isDigit = true
  digits : n.whole ≠ [] ∨ ∃ ds ∈ n.fraction, ds ≠ []

/-- The class of the literal that the numeral spells. -/
def classify (n : Numeral) : NumeralClass :=
  if n.fraction.isNone then
    if n.isNegative then .real else .positiveInteger
  else if Binary64.isNegative n.float || Binary64.isZero n.float then
    .real
  else
    .positiveReal

/-- The spelling behind the sign. -/
def unsigned (n : Numeral) : List Char :=
  n.whole ++ (n.fraction.map ('.' :: ·)).getD []

theorem spelling_eq (n : Numeral) : n.spelling = (n.sign.map Sign.char).toList ++ n.unsigned := by
  simp [spelling, unsigned]

/-- What follows can be no part of the numeral. -/
structure Stops (n : Numeral) (rest : List Char) : Prop where
  digit : Text.Stops Char.isDigit rest
  point : n.fraction = none → Text.Stops (· = '.') rest

/-! ## Where a numeral starts -/

theorem startsUnsigned_cons {c : Char} {cs : List Char} :
    startsUnsigned (c :: cs) = true ↔
      c.isDigit = true ∨ (c = '.' ∧ ∃ d ∈ cs.head?, d.isDigit = true) := by
  cases cs with
  | nil => simp [startsUnsigned]
  | cons d cs => simp [startsUnsigned]

/-! ## Without a sign -/

@[simp] theorem sign_scanUnsigned (sign : Option Sign) (cs : List Char) :
    (scanUnsigned sign cs).sign = sign := by
  rw [scanUnsigned]
  split <;> rfl

/-- The scanner splits the text behind the longest numeral. -/
theorem scanUnsigned_split (sign : Option Sign) (cs : List Char) :
    ∃ rest, cs = (scanUnsigned sign cs).unsigned ++ rest ∧ (scanUnsigned sign cs).Stops rest := by
  have hcut := List.takeWhile_append_dropWhile (p := Char.isDigit) (l := cs)
  have hstop := Text.stops_dropWhile Char.isDigit cs
  rw [scanUnsigned, Text.digits, Text.drop_length_takeWhile]
  split
  · rename_i rest heq
    rw [heq] at hcut
    refine ⟨rest.dropWhile Char.isDigit, ?_, Text.stops_dropWhile _ _, by simp⟩
    simp only [unsigned, Option.map_some, Option.getD_some, List.append_assoc, List.cons_append,
      Text.digits, List.takeWhile_append_dropWhile]
    exact hcut.symm
  · rename_i hne
    refine ⟨cs.dropWhile Char.isDigit, by simp [unsigned], hstop, fun _ => ?_⟩
    intro c hc
    cases hd : cs.dropWhile Char.isDigit with
    | nil => rw [hd] at hc; cases hc
    | cons d ds =>
        rw [hd] at hc
        cases hc
        rw [hd] at hne
        simp only [decide_eq_false_iff_not]
        rintro rfl
        exact hne ds rfl

theorem isDigit_of_mem_whole (sign : Option Sign) (cs : List Char) :
    ∀ c ∈ (scanUnsigned sign cs).whole, c.isDigit = true := by
  rw [scanUnsigned]
  split <;> exact Text.all_of_mem_takeWhile

theorem isDigit_of_mem_fraction (sign : Option Sign) (cs : List Char) :
    ∀ ds ∈ (scanUnsigned sign cs).fraction, ∀ c ∈ ds, c.isDigit = true := by
  rw [scanUnsigned]
  split
  · rintro ds ⟨⟩
    exact Text.all_of_mem_takeWhile
  · rintro ds ⟨⟩

theorem wellFormed_scanUnsigned {sign : Option Sign} {cs : List Char}
    (h : startsUnsigned cs = true) : (scanUnsigned sign cs).WellFormed := by
  refine ⟨isDigit_of_mem_whole sign cs, isDigit_of_mem_fraction sign cs, ?_⟩
  cases cs with
  | nil => cases h
  | cons c cs =>
      rcases startsUnsigned_cons.mp h with hc | ⟨rfl, d, hd, hdigit⟩
      · left
        rw [scanUnsigned]
        split <;> simp [Text.digits, hc]
      · right
        cases cs with
        | nil => cases hd
        | cons e cs =>
            cases hd
            refine ⟨Text.digits (d :: cs), ?_, by simp [Text.digits, hdigit]⟩
            simp [scanUnsigned, Text.digits, isDigit_point]

theorem scanUnsigned_unsigned {n : Numeral} {rest : List Char} (h : n.WellFormed) (hr : n.Stops rest) :
    scanUnsigned n.sign (n.unsigned ++ rest) = n := by
  obtain ⟨sign, whole, fraction⟩ := n
  cases fraction with
  | none =>
      have hw : Text.digits (whole ++ rest) = whole :=
        Text.takeWhile_append_of_stops h.whole hr.digit
      simp only [unsigned, Option.map_none, Option.getD_none, List.append_nil, scanUnsigned, hw,
        List.drop_left]
      split
      · have := hr.point rfl
        simp at this
      · rfl
  | some ds =>
      have hw : Text.digits (whole ++ ('.' :: (ds ++ rest))) = whole :=
        Text.takeWhile_append_of_stops h.whole (by simp [isDigit_point])
      have hd : Text.digits (ds ++ rest) = ds :=
        Text.takeWhile_append_of_stops (h.fraction ds rfl) hr.digit
      simp only [unsigned, Option.map_some, Option.getD_some, List.append_assoc, List.cons_append,
        scanUnsigned, hw, List.drop_left, hd]

theorem startsUnsigned_unsigned {n : Numeral} (h : n.WellFormed) (rest : List Char) :
    startsUnsigned (n.unsigned ++ rest) = true := by
  obtain ⟨sign, whole, fraction⟩ := n
  cases whole with
  | cons c cs =>
      simp only [unsigned, List.cons_append, startsUnsigned_cons]
      exact Or.inl (h.whole c (by simp))
  | nil =>
      rcases h.digits with hw | ⟨ds, hds, hne⟩
      · exact absurd rfl hw
      · cases hds
        cases ds with
        | nil => exact absurd rfl hne
        | cons d ds =>
            simp only [unsigned, Option.map_some, Option.getD_some, List.nil_append, List.cons_append,
              startsUnsigned_cons]
            exact Or.inr ⟨trivial, d, by simp, h.fraction _ rfl d (by simp)⟩

/-! ## With a sign -/

theorem ofChar?_head_unsigned {n : Numeral} (h : n.WellFormed) {c : Char} {cs rest : List Char}
    (hc : n.unsigned ++ rest = c :: cs) : Sign.ofChar? c = none := by
  have hs := startsUnsigned_unsigned h rest
  rw [hc, startsUnsigned_cons] at hs
  rcases hs with hd | ⟨rfl, _⟩
  · exact Sign.ofChar?_of_isDigit hd
  · rfl

theorem startsAt_spelling {n : Numeral} (h : n.WellFormed) (rest : List Char) :
    startsAt false (n.spelling ++ rest) = true := by
  have hs := startsUnsigned_unsigned h rest
  rw [spelling_eq]
  cases hsign : n.sign with
  | some s => simpa [startsAt, Sign.ofChar?_char] using hs
  | none =>
      simp only [Option.map_none, Option.toList_none, List.nil_append]
      cases hc : n.unsigned ++ rest with
      | nil => rw [hc] at hs; cases hs
      | cons c cs =>
          rw [hc] at hs
          simpa [startsAt, ofChar?_head_unsigned h hc] using hs

theorem spelling_ne_nil {n : Numeral} (h : n.WellFormed) : n.spelling ≠ [] := by
  intro hnil
  have hs := startsAt_spelling h []
  rw [hnil] at hs
  cases hs

theorem mem_spelling {n : Numeral} (h : n.WellFormed) :
    ∀ c ∈ n.spelling, c.isDigit = true ∨ c = '+' ∨ c = '-' ∨ c = '.' := by
  intro c hc
  rw [spelling, List.append_assoc, List.mem_append, List.mem_append] at hc
  rcases hc with hsign | hwhole | hfraction
  · cases hs : n.sign with
    | none => simp [hs] at hsign
    | some s => cases s <;> simp_all [Sign.char]
  · exact .inl (h.whole c hwhole)
  · cases hf : n.fraction with
    | none => simp [hf] at hfraction
    | some ds =>
        rw [hf] at hfraction
        rcases List.mem_cons.mp hfraction with rfl | hmem
        · simp
        · exact .inl (h.fraction ds hf c hmem)

theorem scan_spelling {n : Numeral} (h : n.WellFormed) {rest : List Char} (hr : n.Stops rest) :
    scan (n.spelling ++ rest) = n := by
  have hs := scanUnsigned_unsigned h hr
  rw [spelling_eq]
  cases hsign : n.sign with
  | some s =>
      rw [hsign] at hs
      simpa [scan, Sign.ofChar?_char] using hs
  | none =>
      rw [hsign] at hs
      simp only [Option.map_none, Option.toList_none, List.nil_append]
      cases hc : n.unsigned ++ rest with
      | nil =>
          have := startsUnsigned_unsigned h rest
          rw [hc] at this; cases this
      | cons c cs =>
          rw [hc] at hs
          simpa [scan, ofChar?_head_unsigned h hc] using hs

/-- What the scanner takes where a numeral starts is the longest numeral there. -/
theorem scan_split {afterOperand : Bool} {cs : List Char} (h : startsAt afterOperand cs = true) :
    (scan cs).WellFormed ∧ ∃ rest, cs = (scan cs).spelling ++ rest ∧ (scan cs).Stops rest := by
  cases cs with
  | nil => cases h
  | cons c cs =>
      rw [startsAt] at h
      cases hs : Sign.ofChar? c with
      | some s =>
          simp only [hs, Option.isSome_some, ↓reduceIte, Bool.and_eq_true] at h
          obtain ⟨rest, hrest, hstop⟩ := scanUnsigned_split (some s) cs
          simp only [scan, hs]
          refine ⟨wellFormed_scanUnsigned h.2, rest, ?_, hstop⟩
          rw [spelling_eq, sign_scanUnsigned]
          simp only [Option.map_some, Option.toList_some, List.cons_append, List.nil_append,
            Sign.char_of_ofChar? hs]
          rw [← hrest]
      | none =>
          simp only [hs, Option.isSome_none, Bool.false_eq_true, ↓reduceIte] at h
          obtain ⟨rest, hrest, hstop⟩ := scanUnsigned_split none (c :: cs)
          simp only [scan, hs]
          refine ⟨wellFormed_scanUnsigned h, rest, ?_, hstop⟩
          rw [spelling_eq, sign_scanUnsigned]
          simpa using hrest

end Numeral

end GCode
