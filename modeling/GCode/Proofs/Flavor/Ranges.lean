import GCode.Proofs.Flavor.Written

/-!
# Ranges of codes

A range holds the codes of one letter whose values lie between those of its ends, and it can be written
with any spelling of them.
-/

namespace GCode

/-! ## Intervals -/

/-- A cut of a list is what lies between its ends. -/
theorem take_drop_eq_filter {α : Type} {l : List α} {p : α → Bool} {i j : ℕ}
    (h : ∀ n (hn : n < l.length), p l[n] = true ↔ i ≤ n ∧ n ≤ j) :
    (l.drop i).take (j + 1 - i) = l.filter p := by
  have hfront : (l.take i).filter p = [] := by
    refine List.filter_eq_nil_iff.mpr fun c hc => ?_
    obtain ⟨n, hn, rfl⟩ := List.mem_take_iff_getElem.mp hc
    rw [h n (by omega)]
    omega
  have hmiddle : ((l.drop i).take (j + 1 - i)).filter p = (l.drop i).take (j + 1 - i) := by
    refine List.filter_eq_self.mpr fun c hc => ?_
    obtain ⟨n, hn, rfl⟩ := List.mem_take_iff_getElem.mp hc
    rw [List.length_drop] at hn
    rw [List.getElem_drop, h (i + n) (by omega)]
    omega
  have hback : ((l.drop i).drop (j + 1 - i)).filter p = [] := by
    refine List.filter_eq_nil_iff.mpr fun c hc => ?_
    obtain ⟨n, hn, rfl⟩ := List.mem_drop_iff_getElem.mp hc
    rw [List.length_drop] at hn
    rw [List.getElem_drop, h _ (by omega)]
    omega
  calc (l.drop i).take (j + 1 - i)
      = (l.take i).filter p ++ (((l.drop i).take (j + 1 - i)).filter p ++
          ((l.drop i).drop (j + 1 - i)).filter p) := by
        rw [hfront, hmiddle, hback, List.append_nil, List.nil_append]
    _ = l.filter p := by
        rw [← List.filter_append, ← List.filter_append, List.take_append_drop, List.take_append_drop]

/-- The code has the letter of both and a value between theirs. -/
def Code.Between (a b code : String) : Prop :=
  letter code = letter a ∧ value a ≤ value code ∧ value code ≤ value b

instance (a b : String) : DecidablePred (Code.Between a b) :=
  fun _ => inferInstanceAs (Decidable (_ ∧ _ ∧ _))

namespace CodeTable

variable {table : CodeTable} {a b code : String}

theorem exists_position (h : code ∈ table.codes) :
    ∃ (i : ℕ) (hi : i < table.codes.length), table.position code = .ok i ∧ table.codes[i] = code := by
  obtain ⟨i, hi⟩ := Option.isSome_iff_exists.mp (List.isSome_idxOf?.mpr h)
  obtain ⟨hlt, hcode, _⟩ := List.idxOf?_eq_some_iff.mp hi
  exact ⟨i, hlt, by rw [position, hi], hcode⟩

theorem between_iff (h : Code.letter a = Code.letter b) :
    Code.Between a b code ↔ Code.rank a ≤ Code.rank code ∧ Code.rank code ≤ Code.rank b := by
  simp only [Code.Between, Code.rank, Prod.Lex.toLex_le_toLex, h]
  constructor
  · rintro ⟨hletter, hlow, hhigh⟩
    exact ⟨.inr ⟨hletter.symm, hlow⟩, .inr ⟨hletter, hhigh⟩⟩
  · rintro ⟨hlow | ⟨hlow, hlow'⟩, hhigh | ⟨hhigh, hhigh'⟩⟩
    · exact absurd (hlow.trans hhigh) (lt_irrefl _)
    · exact absurd (hhigh ▸ hlow) (lt_irrefl _)
    · exact absurd (hlow ▸ hhigh) (lt_irrefl _)
    · exact ⟨hhigh, hlow', hhigh'⟩

/-- In a table in increasing order a range is an interval. -/
theorem range_eq_filter (h : table.codes.Pairwise Code.Before) (ha : a ∈ table.codes)
    (hb : b ∈ table.codes) (hletter : Code.letter a = Code.letter b) :
    table.range a b =
      if Code.value a ≤ Code.value b then .ok (table.codes.filter (Code.Between a b))
      else .error (.invalidRange (a ++ "-" ++ b)) := by
  obtain ⟨i, hi, hfirst, rfl⟩ := exists_position ha
  obtain ⟨j, hj, hlast, rfl⟩ := exists_position hb
  have hbefore := List.pairwise_iff_getElem.mp h
  have hrank (n m : ℕ) (hn : n < table.codes.length) (hm : m < table.codes.length) :
      Code.rank table.codes[n] ≤ Code.rank table.codes[m] ↔ n ≤ m := by
    rcases Nat.lt_trichotomy n m with hlt | rfl | hlt
    · exact iff_of_true (Code.before_iff.mp (hbefore n m hn hm hlt)).le hlt.le
    · exact iff_of_true le_rfl le_rfl
    · exact iff_of_false (Code.before_iff.mp (hbefore m n hm hn hlt)).not_ge hlt.not_ge
  have hvalue : Code.value table.codes[i] ≤ Code.value table.codes[j] ↔ i ≤ j := by
    rw [← hrank i j hi hj, Code.rank, Code.rank, Prod.Lex.toLex_le_toLex]
    simp [hletter]
  simp only [range, hfirst, hlast, bind, Except.bind, hvalue]
  by_cases hij : i ≤ j
  · rw [if_neg hij.not_gt, if_pos hij]
    refine congrArg Except.ok (take_drop_eq_filter fun n hn => ?_)
    rw [decide_eq_true_eq, between_iff hletter, hrank i n hi hn, hrank n j hn hj]
  · rw [if_pos (not_le.mp hij), if_neg hij]
    rfl

end CodeTable

/-! ## Flavors -/

namespace Flavor

variable {flavor : Flavor} {definition : FlavorDefinition}

/-- The codes of a loaded flavor are in increasing order, ranges are intervals of values, and however a range
is written, it stands for that interval. A bare letter is in a range only as its start. -/
theorem range_interval (h : load definition = .ok flavor)
    (hordinary : ∀ code ∈ flavor.codes.codes, Code.Ordinary code)
    (hapart : Code.ZeroApart flavor.codes.codes) :
    flavor.codes.codes.Pairwise Code.Before ∧
      ∀ a ∈ flavor.codes.codes, ∀ b ∈ flavor.codes.codes, Code.letter a = Code.letter b →
        (flavor.codes.range a b =
          if Code.value a ≤ Code.value b then .ok (flavor.codes.codes.filter (Code.Between a b))
          else .error (.invalidRange (a ++ "-" ++ b))) ∧
        (∀ code ∈ flavor.codes.codes, Code.Between a b code → Code.number code = [] → code = a) ∧
        ∀ text holder, CodeRange.Spelled a b text →
          flavor.codes.expand text holder = flavor.codes.range a b := by
  obtain ⟨table, htable, hunlinked, _⟩ := exists_table_of_load h
  have hcodes : flavor.codes.codes = table.codes := by
    rw [← CodeTable.map_code_unlinked, hunlinked, CodeTable.codes]
  have hcanonical := CodeTable.canonical_of_ofDefinitions htable
  have hbefore : flavor.codes.codes.Pairwise Code.Before := by
    rw [hcodes] at hordinary hapart ⊢
    exact CodeTable.pairwise_before htable hordinary hapart
  rw [← hcodes] at hcanonical
  refine ⟨hbefore, fun a ha b hb hletter => ⟨CodeTable.range_eq_filter hbefore ha hb hletter, ?_, ?_⟩⟩
  · rintro code hcode ⟨hsame, hlow, _⟩ hbare
    rw [Code.value_of_bare hbare] at hlow
    have hvalue : Code.value code = Code.value a := by
      rw [Code.value_of_bare hbare]
      exact (Code.value_nonneg a).antisymm hlow
    exact Code.eq_of_letter_of_value (hcanonical code hcode) (hcanonical a ha) (hordinary code hcode)
      (hordinary a ha) hsame hvalue hapart hcode ha
  · intro text holder htext
    exact CodeTable.expand_of_spelled (hcanonical a ha) (hcanonical b hb) (hordinary a ha) (hordinary b hb)
      htext

/-- The range from `G0` to `G4`, written with zeros, blanks and both cases. -/
theorem range_interval_sample :
    load sample = .ok sampleFlavor ∧
      (∀ code ∈ sampleFlavor.codes.codes, Code.Ordinary code) ∧
      Code.ZeroApart sampleFlavor.codes.codes ∧
      sampleFlavor.codes.codes.Pairwise Code.Before ∧
      sampleFlavor.codes.expand " g00 - G4.0" "modal group" = sampleFlavor.codes.range "G0" "G4" := by
  have hordinary : ∀ code ∈ sampleFlavor.codes.codes, Code.Ordinary code := by
    have hall : ∀ code ∈ sampleFlavor.codes.codes,
        (Code.numeral code).unsigned = Code.number code ∧ (Code.numeral code).whole.length ≤ 5 := by
      decide +kernel
    exact fun code hcode => ⟨(hall code hcode).1, (hall code hcode).2⟩
  have hapart : Code.ZeroApart sampleFlavor.codes.codes := Code.zeroApart_of_bare (by decide +kernel)
  have hspelled : CodeRange.Spelled "G0" "G4" " g00 - G4.0" := by
    have hstart : Code.Spelled "G0" 'g' ['0', '0'] :=
      ⟨by decide, by decide, by decide, congrArg Decimal.value (by decide +kernel)⟩
    have hstop : Code.Spelled "G4" 'g' ['4', '.', '0'] := by
      refine ⟨by decide, by decide, by decide, ?_⟩
      have hwritten : (Numeral.scanUnsigned none ['4', '.', '0']).decimal = ⟨40, -1⟩ := by decide
      have hcode : (Code.numeral "G4").decimal = ⟨4, 0⟩ := by decide +kernel
      rw [Code.value, hwritten, hcode]
      norm_num [Decimal.value]
    exact @CodeRange.Spelled.intro "G0" "G4" [' '] [' '] [' '] [] 'g' ['0', '0'] ['4', '.', '0'] (some 'G')
      (by simp [Text.isBlank]) hstart hstop (by simp)
  obtain ⟨hbefore, hranges⟩ := range_interval load_sample hordinary hapart
  obtain ⟨_, _, hwritten⟩ := hranges "G0" (by decide +kernel) "G4" (by decide +kernel) (by decide)
  exact ⟨load_sample, hordinary, hapart, hbefore, hwritten _ _ hspelled⟩

end Flavor

end GCode
