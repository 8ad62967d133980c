import GCode.Flavor.Code
import GCode.Proofs.Printing.Number
import GCode.Proofs.Result

/-!
# Canonical codes

Normalizing keeps the letter of a code and the value of its number. The canonical code is a letter alone
or a letter with the shortest spelling of that value, which is read back as the same value.
-/

namespace GCode

/-- Numbers have the same canonical spelling exactly if they are equal. -/
theorem Number.text_normalized_eq_iff {x y : Float} (hx : Binary64.isNaN x = false) :
    (normalized x).text = (normalized y).text ↔ (x == y) = true := by
  rw [text_injective.eq_iff, normalized_eq_iff, Binary64.beq_iff, and_iff_left hx]

theorem Number.text_ne_empty (n : Number) : n.text ≠ "" := by
  intro h
  have hfin : n.Finite := by
    rw [finite_iff, h]
    simp
  have hnil := toList_text hfin
  rw [h] at hnil
  exact Numeral.spelling_ne_nil (wellFormed_numeral n) hnil.symm

/-- The numeral of a finite number is read as its value. -/
theorem Number.float_numeral_eq_value {n : Number} (h : n.Finite) : n.numeral.float = n.value := by
  cases n with
  | integer n =>
      simp only [numeral, Numeral.float, isNegative_minusIf, Numeral.decimal, Text.digitsValue,
        Option.getD_none, List.append_nil, Nat.ofDigitChars_ten_toDigits, value]
      rw [Binary64.ofInt, Binary64.nearest, Decimal.toFloat, Decimal.magnitude]
      simp
  | decimal x => exact float_numeral h

theorem Number.finite_normalized {x : Float} (h : Binary64.isFinite x = true) :
    (normalized x).Finite := by
  rcases normalized_cases x with ⟨_, _, _, hx⟩ | hx <;> rw [hx]
  · trivial
  · exact h

theorem Number.sign_numeral_normalized {x : Float} (h : Binary64.isNegative x = false) :
    (normalized x).numeral.sign = none := by
  rcases normalized_cases x with ⟨n, hwhole, hn, hx⟩ | hx <;> rw [hx, numeral]
  · obtain ⟨_, _, hsign⟩ := Binary64.absolute_of_whole? hwhole
    rw [h, if_neg Bool.false_ne_true] at hsign
    rw [Int64.toInt_ofInt_of_le (by omega) (by omega), minusIf, decide_eq_false (by omega)]
    rfl
  · split <;> rw [h] <;> rfl

namespace Code

/-- The letter of a code. -/
def letter (code : String) : Char :=
  code.toList.headD default

/-- The spelling of the number of a code; a bare letter has none. -/
def number (code : String) : List Char :=
  code.toList.tail

/-- The binary64 number that a spelling is read as. -/
def float (digits : List Char) : Float :=
  (Numeral.scanUnsigned none digits).float

variable {text code : String} {c d : Char} {digits : List Char}

theorem toList_canonical (c : Char) (digits : List Char) :
    (canonical c digits).toList = c.toUpper :: (Number.normalized (float digits)).text.toList := by
  simp [canonical, float]

theorem letter_of_toList (h : code.toList = c :: digits) : letter code = c := by
  rw [letter, h]
  rfl

theorem number_of_toList (h : code.toList = c :: digits) : number code = digits := by
  rw [number, h]
  rfl

/-! ## What is normalized -/

theorem normalize_eq_ok_iff :
    normalize text = .ok code ↔
      ∃ c digits, Text.trim text.toList = c :: digits ∧ c.isAlpha = true ∧
        (digits = [] ∧ code = c.toUpper.toString ∨
          isNumber digits = true ∧ code = canonical c digits) := by
  rw [normalize]
  cases htrim : Text.trim text.toList with
  | nil => simp
  | cons c digits =>
      have hempty : isNumber [] = false := rfl
      simp only [List.cons.injEq]
      constructor
      · intro h
        refine ⟨c, digits, ⟨rfl, rfl⟩, ?_⟩
        split at h
        · cases h
        · rename_i halpha
          refine ⟨by simpa using halpha, ?_⟩
          split at h
          · rename_i hnil
            cases h
            exact .inl ⟨List.isEmpty_iff.mp hnil, rfl⟩
          · split at h
            · rename_i hnumber
              cases h
              exact .inr ⟨hnumber, rfl⟩
            · cases h
      · rintro ⟨_, _, ⟨rfl, rfl⟩, halpha, ⟨rfl, rfl⟩ | ⟨hnumber, rfl⟩⟩
        · simp [halpha]
        · have hne : digits ≠ [] := by
            rintro rfl
            cases hempty.symm.trans hnumber
          simp [halpha, hne, hnumber]

theorem isNegative_float (digits : List Char) : Binary64.isNegative (float digits) = false := by
  have hsign : (Numeral.scanUnsigned none digits).isNegative = false := by simp [Numeral.isNegative]
  rw [float, Numeral.float, hsign]
  exact Binary64.isNegative_ofMagnitude (Binary64.nearestMagnitude_le_infinity _ _)

theorem isNaN_float (digits : List Char) : Binary64.isNaN (float digits) = false :=
  Binary64.isNaN_nearest _ _ _

/-- Codes with a number are told apart by their letters and by the values of their numbers. -/
theorem canonical_eq_iff {x : Float} :
    canonical c digits = d.toString ++ (Number.normalized x).text ↔
      c.toUpper = d ∧ (float digits == x) = true := by
  rw [← Number.text_normalized_eq_iff (isNaN_float digits), ← String.toList_inj, ← String.toList_inj,
    toList_canonical]
  simp

theorem canonical_ne_bare : canonical c digits ≠ d.toString := by
  intro h
  have hnil : (Number.normalized (float digits)).text = "" := by
    simpa [toList_canonical] using congrArg (fun s : String => s.toList.tail) h
  exact Number.text_ne_empty _ hnil

/-! ## What normalizing gives -/

/-- How the number of a canonical code is spelled. -/
inductive Spelling : List Char → Prop where
  | bare : Spelling []
  | infinite : Spelling ['i', 'n', 'f']
  | finite {x : Float} (hx : Binary64.isFinite x = true) (hsign : Binary64.isNegative x = false) :
      Spelling (Number.normalized x).text.toList

/-- A letter in upper case and the spelling of a number. -/
structure Canonical (code : String) : Prop where
  toList : code.toList = letter code :: number code
  letter : (letter code).isUpper = true
  number : Spelling (number code)

theorem text_of_infinite (h : Binary64.isFinite (float digits) = false) :
    (Number.normalized (float digits)).text = "inf" := by
  have hsign := isNegative_float digits
  have hnan := isNaN_float digits
  generalize float digits = x at h hsign hnan
  have hwhole : Binary64.whole? x = none := by
    rw [Binary64.whole?, h]
    rfl
  rw [Number.normalized, hwhole, Number.text_of_not_finite (by simp [Number.Finite, h]), hnan,
    if_neg Bool.false_ne_true, Binary64.signed, hsign, if_neg Bool.false_ne_true]

theorem spelling_float (digits : List Char) :
    Spelling (Number.normalized (float digits)).text.toList := by
  cases hx : Binary64.isFinite (float digits) with
  | true => exact .finite hx (isNegative_float digits)
  | false =>
      rw [text_of_infinite hx]
      exact .infinite

theorem Canonical.of_toList (h : code.toList = c :: digits) (hc : c.isUpper = true)
    (hdigits : Spelling digits) : Canonical code := by
  have hletter := letter_of_toList h
  have hnumber := number_of_toList h
  exact ⟨by rw [hletter, hnumber, h], by rw [hletter, hc], by rwa [hnumber]⟩

theorem canonical_of_normalize (h : normalize text = .ok code) : Canonical code := by
  obtain ⟨c, digits, _, halpha, ⟨_, rfl⟩ | ⟨_, rfl⟩⟩ := normalize_eq_ok_iff.mp h
  · exact .of_toList (String.toList_singleton c.toUpper) (by simpa using halpha) .bare
  · exact .of_toList (toList_canonical c digits) (by simpa using halpha) (spelling_float digits)

/-- The spelling of a number is read as that number. -/
theorem normalized_float_text {x : Float} (hx : Binary64.isFinite x = true)
    (hsign : Binary64.isNegative x = false) :
    Number.normalized (float (Number.normalized x).text.toList) = Number.normalized x := by
  have hfin := Number.finite_normalized hx
  have hstops : (Number.normalized x).numeral.Stops [] := ⟨by simp, by simp⟩
  have hread := Numeral.scanUnsigned_unsigned (Number.wellFormed_numeral _) hstops
  rw [Number.sign_numeral_normalized hsign, List.append_nil] at hread
  rw [Number.toList_text hfin, Numeral.spelling_eq, Number.sign_numeral_normalized hsign, float]
  simp only [Option.map_none, Option.toList_none, List.nil_append, hread]
  rw [Number.float_numeral_eq_value hfin, Number.normalized_value_normalized]

theorem Spelling.eq_text {digits : List Char} (h : Spelling digits) (hne : digits ≠ [])
    (hinf : digits ≠ ['i', 'n', 'f']) : digits = (Number.normalized (float digits)).text.toList := by
  cases h with
  | bare => exact absurd rfl hne
  | infinite => exact absurd rfl hinf
  | finite hx hsign => rw [normalized_float_text hx hsign]

/-- Numbers that are read alike are spelled alike, but for a bare letter and zero. -/
theorem Spelling.eq_of_float {as bs : List Char} (ha : Spelling as) (hb : Spelling bs)
    (ha' : as ≠ ['i', 'n', 'f']) (hb' : bs ≠ ['i', 'n', 'f']) (h : float as = float bs) :
    as = bs ∨ as = [] ∧ bs = ['0'] ∨ as = ['0'] ∧ bs = [] := by
  have hzero : (Number.normalized (float [])).text.toList = ['0'] := by decide +kernel
  by_cases hane : as = []
  · by_cases hbne : bs = []
    · exact .inl (hane.trans hbne.symm)
    · rw [hb.eq_text hbne hb', ← h, hane]
      exact .inr (.inl ⟨rfl, hzero⟩)
  · by_cases hbne : bs = []
    · rw [ha.eq_text hane ha', h, hbne]
      exact .inr (.inr ⟨hzero, rfl⟩)
    · rw [ha.eq_text hane ha', hb.eq_text hbne hb', h]
      exact .inl rfl

/-- No letter stands in the list both alone and with zero. -/
def ZeroApart (codes : List String) : Prop :=
  ∀ c : Char, c.toString ∈ codes → c.toString ++ "0" ∉ codes

theorem zeroApart_of_bare {codes : List String}
    (h : ∀ code ∈ codes, number code = [] → code ++ "0" ∉ codes) : ZeroApart codes :=
  fun c hbare => h c.toString hbare (number_of_toList (String.toList_singleton c))

/-- Codes with one letter and one number are the same. -/
theorem eq_of_letter_of_float {codes : List String} {a b : String} (ha : Canonical a) (hb : Canonical b)
    (ha' : number a ≠ ['i', 'n', 'f']) (hb' : number b ≠ ['i', 'n', 'f']) (hletter : letter a = letter b)
    (hfloat : float (number a) = float (number b)) (hapart : ZeroApart codes) (hac : a ∈ codes)
    (hbc : b ∈ codes) : a = b := by
  have hbare {a b : String} (ha : Canonical a) (hb : Canonical b) (hletter : letter a = letter b)
      (hnone : number a = []) (hzero : number b = ['0']) (hac : a ∈ codes) (hbc : b ∈ codes) : False := by
    have ha : a = (letter a).toString := by
      rw [← String.toList_inj, ha.toList, hnone]
      simp
    have hb : b = (letter a).toString ++ "0" := by
      rw [← String.toList_inj, hb.toList, hzero, hletter]
      simp
    exact hapart (letter a) (ha ▸ hac) (hb ▸ hbc)
  rcases ha.number.eq_of_float hb.number ha' hb' hfloat with hnumber | ⟨hnone, hzero⟩ | ⟨hzero, hnone⟩
  · rw [← String.toList_inj, ha.toList, hb.toList, hletter, hnumber]
  · exact (hbare ha hb hletter hnone hzero hac hbc).elim
  · exact (hbare hb ha hletter.symm hnone hzero hbc hac).elim

end Code

end GCode
