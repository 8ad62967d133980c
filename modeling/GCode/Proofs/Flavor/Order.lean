import GCode.Proofs.Flavor.Canonical
import GCode.Proofs.Flavor.Loading

/-!
# The order of codes

Codes are ordered as texts, with the digits before the point in a column of five. For numbers that fit into
the column it is the order of their exact values.
-/

namespace GCode

/-! ## Digits behind a point -/

namespace Text

/-- The value of digits behind a point. -/
def fraction : List Char → ℚ
  | [] => 0
  | c :: cs => ((c.toNat - '0'.toNat : ℕ) + fraction cs) / 10

theorem digitsValue_eq_fraction (cs : List Char) :
    (digitsValue cs : ℚ) = fraction cs * 10 ^ cs.length := by
  induction cs with
  | nil => simp [digitsValue, fraction]
  | cons c cs ih =>
      rw [digitsValue, Nat.ofDigitChars_cons, Nat.ofDigitChars_eq_ofDigitChars_zero, ← digitsValue, fraction,
        List.length_cons, pow_succ]
      push_cast
      rw [ih]
      ring

theorem fraction_nonneg (cs : List Char) : 0 ≤ fraction cs := by
  induction cs with
  | nil => exact le_refl 0
  | cons c cs ih =>
      rw [fraction]
      positivity

theorem fraction_lt_one {cs : List Char} (h : ∀ c ∈ cs, c.isDigit = true) : fraction cs < 1 := by
  induction cs with
  | nil => exact zero_lt_one
  | cons c cs ih =>
      obtain ⟨hc, hcs⟩ := List.forall_mem_cons.mp h
      have hdigit : ((c.toNat - '0'.toNat : ℕ) : ℚ) ≤ 9 := by
        have := digit_le hc
        have hnat : c.toNat - '0'.toNat ≤ 9 := by
          change c.toNat - 48 ≤ 9
          omega
        exact_mod_cast hnat
      have := ih hcs
      rw [fraction, div_lt_one (by norm_num)]
      linarith

theorem cons_le_cons_iff {c d : Char} {cs ds : List Char} : c :: cs ≤ d :: ds ↔ c < d ∨ c = d ∧ cs ≤ ds := by
  rw [← not_lt, List.cons_lt_cons_iff, ← not_lt]
  rcases lt_trichotomy c d with h | rfl | h
  · simp [h, h.not_gt, h.ne']
  · simp
  · simp [h, h.not_gt, h.ne']

/-- Digits in the order of texts are in the order of their values. -/
theorem fraction_le_fraction {cs ds : List Char} (hcs : ∀ c ∈ cs, c.isDigit = true)
    (hds : ∀ d ∈ ds, d.isDigit = true) (h : cs ≤ ds) : fraction cs ≤ fraction ds := by
  induction cs generalizing ds with
  | nil => exact fraction_nonneg ds
  | cons c cs ih =>
      cases ds with
      | nil => exact absurd h (not_le.mpr (List.nil_lt_cons c cs))
      | cons d ds =>
          have hcs' := List.forall_mem_of_forall_mem_cons hcs
          have hds' := List.forall_mem_of_forall_mem_cons hds
          rw [fraction, fraction, div_le_div_iff_of_pos_right (by norm_num)]
          rcases cons_le_cons_iff.mp h with hlt | ⟨rfl, hle⟩
          · -- a larger digit outweighs all digits behind it
            have hnat : c.toNat - '0'.toNat + 1 ≤ d.toNat - '0'.toNat := by
              have hval : c.toNat < d.toNat := hlt
              have := digit_le (hcs c List.mem_cons_self)
              change c.toNat - 48 + 1 ≤ d.toNat - 48
              omega
            have hcast : ((c.toNat - '0'.toNat : ℕ) : ℚ) + 1 ≤ (d.toNat - '0'.toNat : ℕ) := by
              exact_mod_cast hnat
            have := fraction_lt_one hcs'
            have := fraction_nonneg ds
            linarith
          · have := ih hcs' hds' hle
            linarith

/-- Texts whose fronts are equally long are compared by their fronts first. -/
theorem append_le_append_iff {ws vs xs ys : List Char} (h : ws.length = vs.length) :
    ws ++ xs ≤ vs ++ ys ↔ ws < vs ∨ ws = vs ∧ xs ≤ ys := by
  induction ws generalizing vs with
  | nil =>
      rw [List.length_eq_zero_iff.mp h.symm]
      simp
  | cons w ws ih =>
      cases vs with
      | nil => cases h
      | cons v vs =>
          rw [List.cons_append, List.cons_append, cons_le_cons_iff, ih (Nat.succ.inj h),
            List.cons_lt_cons_iff, List.cons.injEq]
          tauto

end Text

/-! ## Exact values -/

/-- The exact value of a decimal. -/
def Decimal.value (d : Decimal) : ℚ :=
  d.digits * 10 ^ d.exponent

/-- A decimal is rounded by its value. -/
theorem Decimal.magnitude_eq_of_value {d e : Decimal} (h : d.value = e.value) :
    d.magnitude = e.magnitude := by
  have hvalue (d : Decimal) :
      ((d.digits * Nat.pow 10 d.exponent.toNat : ℕ) : ℚ) / (Nat.pow 10 (-d.exponent).toNat : ℕ) = d.value := by
    simp only [value, Binary64.zpow_eq_div d.exponent, Nat.pow_eq]
    push_cast
    rw [mul_div_assoc]
  apply Binary64.nearestMagnitude_congr (by simp) (by simp)
  rw [hvalue, hvalue, h]

namespace Numeral

/-- The digits before the point in a column of this width. -/
def column (width : ℕ) (n : Numeral) : List Char :=
  List.replicate (width - n.whole.length) '0' ++ n.whole

theorem value_decimal {n : Numeral} {width : ℕ} (h : n.whole.length ≤ width) :
    n.decimal.value = Text.fraction (n.column width ++ n.fraction.getD []) * 10 ^ width := by
  have hzeros : Text.digitsValue (n.column width ++ n.fraction.getD []) =
      Text.digitsValue (n.whole ++ n.fraction.getD []) := by
    simp [Text.digitsValue, column, Nat.ofDigitChars_append]
  have hvalue := Text.digitsValue_eq_fraction (n.column width ++ n.fraction.getD [])
  have hlength : (n.column width).length = width := by
    simp [column, h]
  rw [hzeros, List.length_append, hlength, pow_add, ← mul_assoc] at hvalue
  rw [Decimal.value, decimal, hvalue, zpow_neg, zpow_natCast, mul_inv_cancel_right₀ (by positivity)]

/-- Numerals that are in order as texts are in order of their values, if their points are in one column. -/
theorem value_le_value {m n : Numeral} {width : ℕ} (hm : ∀ c ∈ m.whole ++ m.fraction.getD [], c.isDigit = true)
    (hn : ∀ c ∈ n.whole ++ n.fraction.getD [], c.isDigit = true) (hmw : m.whole.length ≤ width)
    (hnw : n.whole.length ≤ width)
    (h : List.replicate (width - m.whole.length) '0' ++ m.unsigned ≤
      List.replicate (width - n.whole.length) '0' ++ n.unsigned) :
    m.decimal.value ≤ n.decimal.value := by
  have hcolumn {k : Numeral} (hk : ∀ c ∈ k.whole ++ k.fraction.getD [], c.isDigit = true) :
      ∀ c ∈ k.column width ++ k.fraction.getD [], c.isDigit = true := by
    intro c hc
    rw [column, List.append_assoc] at hc
    rcases List.mem_append.mp hc with hzero | hdigit
    · rw [List.eq_of_mem_replicate hzero]
      rfl
    · exact hk c hdigit
  have hlength : (m.column width).length = (n.column width).length := by
    simp only [column, List.length_append, List.length_replicate]
    omega
  rw [unsigned, unsigned, ← List.append_assoc, ← List.append_assoc, ← column, ← column,
    Text.append_le_append_iff hlength] at h
  rw [value_decimal hmw, value_decimal hnw]
  apply mul_le_mul_of_nonneg_right _ (by positivity)
  apply Text.fraction_le_fraction (hcolumn hm) (hcolumn hn)
  rw [Text.append_le_append_iff hlength]
  rcases h with hlt | ⟨heq, hle⟩
  · exact .inl hlt
  · refine .inr ⟨heq, ?_⟩
    -- behind equal columns stands a point on both sides, or nothing on the left
    cases hf : m.fraction with
    | none => exact not_lt.mp (List.not_lt_nil _)
    | some ds =>
        cases hg : n.fraction with
        | none =>
            rw [hf, hg] at hle
            exact absurd hle (not_le.mpr (List.nil_lt_cons '.' ds))
        | some es =>
            rw [hf, hg] at hle
            rcases Text.cons_le_cons_iff.mp hle with hpoint | ⟨_, hle⟩
            · exact absurd hpoint (lt_irrefl _)
            · exact hle

end Numeral

/-! ## Codes -/

namespace Code

variable {a b code : String}

/-- The numeral of a code; that of a bare letter has no digits. -/
def numeral (code : String) : Numeral :=
  Numeral.scanUnsigned none (number code)

/-- The exact value of the number of a code; a bare letter counts as zero. -/
def value (code : String) : ℚ :=
  (numeral code).decimal.value

/-- The number of the code is written in digits, up to five of them before the point. -/
structure Ordinary (code : String) : Prop where
  digits : (numeral code).unsigned = number code
  short : (numeral code).whole.length ≤ 5

/-- The code comes before the other one by its letter or else by the value of its number. -/
def Before (a b : String) : Prop :=
  letter a < letter b ∨ letter a = letter b ∧ value a < value b

/-- The place of a code in the order. -/
def rank (code : String) : Char ×ₗ ℚ :=
  toLex (letter code, value code)

theorem before_iff : Before a b ↔ rank a < rank b := by
  rw [rank, rank, Prod.Lex.toLex_lt_toLex]
  rfl

theorem le_iff : le a b = true ↔ sortKey a ≤ sortKey b := by
  simp [le]

theorem isDigit_of_mem_numeral (code : String) :
    ∀ c ∈ (numeral code).whole ++ (numeral code).fraction.getD [], c.isDigit = true := by
  intro c hc
  rcases List.mem_append.mp hc with hwhole | hfraction
  · exact Numeral.isDigit_of_mem_whole none _ c hwhole
  · cases hf : (numeral code).fraction with
    | none =>
        rw [hf] at hfraction
        cases hfraction
    | some ds =>
        rw [hf] at hfraction
        exact Numeral.isDigit_of_mem_fraction none _ ds hf c hfraction

theorem sortKey_eq (h : Canonical code) (ho : Ordinary code) :
    sortKey code = letter code ::
      (List.replicate (5 - (numeral code).whole.length) '0' ++ (numeral code).unsigned) := by
  have hwhole : (numeral code).unsigned.takeWhile (· ≠ '.') = (numeral code).whole := by
    apply Text.takeWhile_append_of_stops
    · intro c hc
      have hdigit := isDigit_of_mem_numeral code c (List.mem_append_left _ hc)
      rw [decide_eq_true_eq]
      rintro rfl
      cases hdigit
    · cases (numeral code).fraction <;> simp
  rw [sortKey, h.toList]
  simp only
  rw [← ho.digits, hwhole]

theorem letter_value_of_le (ha : Canonical a) (hb : Canonical b) (hao : Ordinary a) (hbo : Ordinary b)
    (h : le a b = true) : letter a < letter b ∨ letter a = letter b ∧ value a ≤ value b := by
  rw [le_iff, sortKey_eq ha hao, sortKey_eq hb hbo, Text.cons_le_cons_iff] at h
  refine h.imp_right (And.imp_right fun hle => ?_)
  exact Numeral.value_le_value (isDigit_of_mem_numeral a) (isDigit_of_mem_numeral b) hao.short hbo.short hle

theorem float_eq_of_value {digits digits' : List Char}
    (h : (Numeral.scanUnsigned none digits).decimal.value =
      (Numeral.scanUnsigned none digits').decimal.value) : float digits = float digits' := by
  have hmagnitude := Decimal.magnitude_eq_of_value h
  simp only [float, Numeral.float, Numeral.isNegative, Numeral.sign_scanUnsigned, Decimal.toFloat,
    hmagnitude]

theorem Ordinary.ne_infinite (h : Ordinary code) : Code.number code ≠ ['i', 'n', 'f'] := by
  intro hinf
  have hdigits := h.digits
  rw [numeral, hinf] at hdigits
  cases hdigits

/-- Codes of one letter are told apart by their values. -/
theorem eq_of_letter_of_value {codes : List String} (ha : Canonical a) (hb : Canonical b) (hao : Ordinary a)
    (hbo : Ordinary b) (hletter : letter a = letter b) (hvalue : value a = value b)
    (hapart : ZeroApart codes) (hac : a ∈ codes) (hbc : b ∈ codes) : a = b :=
  eq_of_letter_of_float ha hb hao.ne_infinite hbo.ne_infinite hletter (float_eq_of_value hvalue) hapart hac hbc

theorem value_nonneg (code : String) : 0 ≤ value code := by
  rw [value, Decimal.value]
  positivity

theorem value_of_bare (h : number code = []) : value code = 0 := by
  have hdigits : (Numeral.scanUnsigned none []).decimal.digits = 0 := rfl
  rw [value, numeral, h, Decimal.value, hdigits, Nat.cast_zero, zero_mul]

/-! ### Equal keys -/

theorem float_cons_zero (digits : List Char) : float ('0' :: digits) = float digits := by
  have hscan : Numeral.scanUnsigned none ('0' :: digits) =
      { Numeral.scanUnsigned none digits with whole := '0' :: (Numeral.scanUnsigned none digits).whole } := by
    have hzero : Text.digits ('0' :: digits) = '0' :: Text.digits digits := rfl
    simp only [Numeral.scanUnsigned, hzero, List.length_cons, List.drop_succ_cons]
    split <;> rfl
  rw [float, hscan]
  simp only [Numeral.float, Numeral.decimal, Numeral.isNegative, Text.digitsValue, List.cons_append,
    Nat.ofDigitChars_cons]
  rfl

theorem float_zeros (n : ℕ) (digits : List Char) : float (List.replicate n '0' ++ digits) = float digits := by
  induction n with
  | zero => rfl
  | succ n ih => rw [List.replicate_succ, List.cons_append, float_cons_zero, ih]

/-- Only an infinite number is spelled with letters. -/
theorem Spelling.infinite_of_mem {digits : List Char} (h : Spelling digits) (hi : 'i' ∈ digits) :
    digits = ['i', 'n', 'f'] := by
  cases h with
  | bare => cases hi
  | infinite => rfl
  | finite hx _ =>
      have hchars := (Number.finite_iff _).mp (Number.finite_normalized hx) 'i' hi
      exact absurd hchars (by decide)

/-- Codes that are equally far forward are the same. -/
theorem eq_of_le_of_le {codes : List String} (ha : Canonical a) (hb : Canonical b) (hab : le a b = true)
    (hba : le b a = true) (hapart : ZeroApart codes) (hac : a ∈ codes) (hbc : b ∈ codes) : a = b := by
  have hkey : sortKey a = sortKey b := (le_iff.mp hab).antisymm (le_iff.mp hba)
  simp only [sortKey, ha.toList, hb.toList, List.cons.injEq] at hkey
  obtain ⟨hletter, hpadded⟩ := hkey
  generalize 5 - (List.takeWhile (fun c => decide (c ≠ '.')) (number a)).length = m at hpadded
  generalize 5 - (List.takeWhile (fun c => decide (c ≠ '.')) (number b)).length = n at hpadded
  have hfloat : float (number a) = float (number b) := by
    rw [← float_zeros m, hpadded, float_zeros]
  -- a letter in one of the keys is in the other one
  have hletters : 'i' ∈ number a ↔ 'i' ∈ number b := by
    have hmem := congrArg (fun cs => 'i' ∈ cs) hpadded
    simpa using hmem
  by_cases hi : 'i' ∈ number a
  · rw [← String.toList_inj, ha.toList, hb.toList, hletter, ha.number.infinite_of_mem hi,
      hb.number.infinite_of_mem (hletters.mp hi)]
  · have ha' : number a ≠ ['i', 'n', 'f'] := fun h => hi (by simp [h])
    have hb' : number b ≠ ['i', 'n', 'f'] := fun h => hi (hletters.mpr (by simp [h]))
    exact eq_of_letter_of_float ha hb ha' hb' hletter hfloat hapart hac hbc

/-! ### Comparing -/

theorem le_trans (a b c : String) (hab : le a b = true) (hbc : le b c = true) : le a c = true := by
  rw [le_iff] at *
  exact hab.trans hbc

theorem le_total (a b : String) : (le a b || le b a) = true := by
  rw [Bool.or_eq_true, le_iff, le_iff]
  exact LinearOrder.le_total _ _

end Code

/-! ## Tables -/

namespace CodeTable

variable {definitions : List CodeDefinition} {table : CodeTable}

theorem canonical_of_ofDefinitions (h : ofDefinitions definitions = .ok table) :
    ∀ code ∈ table.codes, Code.Canonical code := by
  intro code hcode
  have hlisted := (defined_of_ofDefinitions h).listed.mem_iff (a := Except.ok code)
  simp only [List.mem_map, Except.ok.injEq] at hlisted
  obtain ⟨_, _, hnormalize⟩ := hlisted.mp (List.mem_map.mp hcode)
  exact Code.canonical_of_normalize hnormalize

theorem pairwise_le_of_ofDefinitions (h : ofDefinitions definitions = .ok table) :
    table.codes.Pairwise fun a b => Code.le a b = true := by
  obtain ⟨entries, _, _, rfl⟩ := ofDefinitions_eq_ok_iff.mp h
  rw [codes, List.pairwise_map]
  refine List.pairwise_mergeSort (fun a b c => ?_) (fun a b => ?_) entries
  · exact Code.le_trans a.code b.code c.code
  · exact Code.le_total a.code b.code

/-- The codes of a table are in increasing order of their letters and values. -/
theorem pairwise_before (h : ofDefinitions definitions = .ok table)
    (hordinary : ∀ code ∈ table.codes, Code.Ordinary code) (hapart : Code.ZeroApart table.codes) :
    table.codes.Pairwise Code.Before := by
  have hcanonical := canonical_of_ofDefinitions h
  have hpairs := (pairwise_le_of_ofDefinitions h).and (defined_of_ofDefinitions h).nodup
  refine hpairs.imp_of_mem fun {a b} ha hb hab => ?_
  obtain ⟨hle, hne⟩ := hab
  rcases Code.letter_value_of_le (hcanonical a ha) (hcanonical b hb) (hordinary a ha) (hordinary b hb) hle with
    hletter | ⟨hletter, hvalue⟩
  · exact .inl hletter
  · refine .inr ⟨hletter, lt_of_le_of_ne hvalue fun heq => hne ?_⟩
    exact Code.eq_of_letter_of_value (hcanonical a ha) (hcanonical b hb) (hordinary a ha) (hordinary b hb)
      hletter heq hapart ha hb

end CodeTable

end GCode
