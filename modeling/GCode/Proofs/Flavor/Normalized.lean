import GCode.Proofs.Flavor.Written

/-!
# One spelling for each code

A text is a code if it is a letter, alone or with a number, between blanks. Two of them are normalized to
one spelling exactly if they have the same letter and numbers that are read alike, and normalizing leaves
that spelling as it is.
-/

namespace GCode

/-! ## The text of a number -/

/-- A finite number has digits before its point and, if it has one, behind it. -/
theorem Number.numeral_ne_nil {n : Number} (h : n.Finite) :
    n.numeral.whole ≠ [] ∧ ∀ ds ∈ n.numeral.fraction, ds ≠ [] := by
  cases n with
  | integer n => exact ⟨Nat.toDigits_ne_nil, by simp [numeral]⟩
  | decimal x =>
      rw [numeral]
      split
      · refine ⟨Nat.toDigits_ne_nil, ?_⟩
        rintro _ ⟨⟩
        exact List.cons_ne_nil _ _
      · rename_i hwhole
        have hexp := Decimal.exponent_shortest_neg h hwhole
        generalize Decimal.shortest x = d at hexp
        have hlen := Decimal.le_length_paddedDigits ((-d.exponent).toNat + 1) d.digits
        constructor
        · rw [fractional, ← List.length_pos_iff, List.length_take]
          omega
        · rintro _ ⟨⟩
          rw [← List.length_pos_iff, List.length_drop]
          omega

theorem Number.positional_text {x : Float} (hx : Binary64.isFinite x = true)
    (hsign : Binary64.isNegative x = false) :
    Code.Positional Char.isDigit (normalized x).text.toList := by
  have hfin := finite_normalized hx
  have hformed := wellFormed_numeral (normalized x)
  have hnosign := sign_numeral_normalized hsign
  obtain ⟨hwhole, hfraction⟩ := numeral_ne_nil hfin
  rw [toList_text hfin, Numeral.spelling_eq, hnosign]
  generalize (normalized x).numeral = n at hformed hwhole hfraction
  obtain ⟨sign, whole, fraction⟩ := n
  cases fraction with
  | none =>
      simp only [Numeral.unsigned, Option.map_none, Option.toList_none, List.nil_append, Option.getD_none,
        List.append_nil]
      exact .whole hformed.whole hwhole
  | some ds => exact .point hformed.whole hwhole (hformed.fraction ds rfl) (hfraction ds rfl)

namespace Code

variable {text code : String} {c : Char} {digits : List Char}

/-! ## Texts that are codes -/

theorem isNumber_iff : isNumber digits = true ↔ Positional Char.isDigit digits := by
  constructor
  · exact positional_of_isNumber
  · intro h
    have hscan := h.scanNumber (by decide) (Text.stops_nil _) (Text.stops_nil _)
    rw [List.append_nil] at hscan
    rw [isNumber, hscan]

/-- The text is a code of this letter, with these digits for its number or with none. -/
structure Reads (text : String) (c : Char) (digits : List Char) : Prop where
  trim : Text.trim text.toList = c :: digits
  letter : c.isAlpha = true
  number : digits = [] ∨ Positional Char.isDigit digits

theorem Reads.normalize_bare (h : Reads text c []) : normalize text = .ok c.toUpper.toString :=
  normalize_eq_ok_iff.mpr ⟨c, [], h.trim, h.letter, .inl ⟨rfl, rfl⟩⟩

theorem Reads.normalize_numbered (h : Reads text c digits) (hne : digits ≠ []) :
    normalize text = .ok (canonical c digits) :=
  normalize_eq_ok_iff.mpr
    ⟨c, digits, h.trim, h.letter, .inr ⟨isNumber_iff.mpr (h.number.resolve_left hne), rfl⟩⟩

theorem exists_normalize_iff : (∃ code, normalize text = .ok code) ↔ ∃ c digits, Reads text c digits := by
  constructor
  · rintro ⟨code, h⟩
    obtain ⟨c, digits, htrim, hletter, hdigits⟩ := normalize_eq_ok_iff.mp h
    refine ⟨c, digits, htrim, hletter, ?_⟩
    rcases hdigits with ⟨hnil, _⟩ | ⟨hnumber, _⟩
    · exact .inl hnil
    · exact .inr (isNumber_iff.mp hnumber)
  · rintro ⟨c, digits, h⟩
    by_cases hne : digits = []
    · subst hne
      exact ⟨_, h.normalize_bare⟩
    · exact ⟨_, h.normalize_numbered hne⟩

/-! ## Equal spellings -/

/-- Numbers without a sign are equal only if they are the same. -/
theorem float_beq_iff {ds es : List Char} : (float ds == float es) = true ↔ float ds = float es := by
  rw [Binary64.beq_iff]
  constructor
  · rintro (⟨h, _⟩ | ⟨hds, hes⟩)
    · exact h
    · have hzero {ds : List Char} (h : Binary64.isZero (float ds) = true) :
          float ds = Binary64.ofMagnitude false 0 := by
        have hmag : Binary64.magnitude (float ds) = 0 := by simpa [Binary64.isZero] using h
        rw [← Binary64.ofMagnitude_magnitude (x := float ds) (by rw [hmag]; exact Nat.zero_le _), hmag,
          isNegative_float]
      rw [hzero hds, hzero hes]
  · intro h
    exact .inl ⟨h, isNaN_float ds⟩

theorem canonical_eq_canonical_iff {d : Char} {es : List Char} :
    canonical c digits = canonical d es ↔ c.toUpper = d.toUpper ∧ float digits = float es := by
  rw [← float_beq_iff]
  exact canonical_eq_iff

/-- Two codes have one spelling exactly if their letters and their numbers agree. -/
theorem Reads.normalize_eq_iff {a b : String} {d : Char} {ds es : List Char} (ha : Reads a c ds)
    (hb : Reads b d es) :
    normalize a = normalize b ↔
      c.toUpper = d.toUpper ∧ (ds = [] ∧ es = [] ∨ ds ≠ [] ∧ es ≠ [] ∧ float ds = float es) := by
  by_cases hds : ds = [] <;> by_cases hes : es = []
  · subst hds hes
    rw [ha.normalize_bare, hb.normalize_bare]
    simp [← String.toList_inj]
  · subst hds
    have hne : c.toUpper.toString ≠ canonical d es := canonical_ne_bare.symm
    rw [ha.normalize_bare, hb.normalize_numbered hes, Except.ok.injEq, iff_false_left hne]
    simp [hes]
  · subst hes
    have hne : canonical c ds ≠ d.toUpper.toString := canonical_ne_bare
    rw [ha.normalize_numbered hds, hb.normalize_bare, Except.ok.injEq, iff_false_left hne]
    simp [hds]
  · rw [ha.normalize_numbered hds, hb.normalize_numbered hes, Except.ok.injEq, canonical_eq_canonical_iff]
    simp [hds, hes]

/-! ## Spellings that stay -/

theorem Spelling.positional {digits : List Char} (h : Spelling digits) (hinf : digits ≠ ['i', 'n', 'f']) :
    digits = [] ∨ Positional Char.isDigit digits := by
  cases h with
  | bare => exact .inl rfl
  | infinite => exact absurd rfl hinf
  | finite hx hsign => exact .inr (Number.positional_text hx hsign)

theorem Spelling.isBlank {digits : List Char} (h : Spelling digits) : ∀ d ∈ digits, Text.isBlank d = false := by
  by_cases hinf : digits = ['i', 'n', 'f']
  · have hletters : ['i', 'n', 'f'].any Text.isBlank = false := rfl
    intro d hd
    simpa using List.any_eq_false.mp hletters d (hinf ▸ hd)
  · rcases h.positional hinf with rfl | hpositional
    · simp
    · exact hpositional.isBlank

section

variable (h : Canonical code)

include h

theorem Canonical.isAlpha : (Code.letter code).isAlpha = true := by
  rw [Char.isAlpha, h.letter, Bool.true_or]

theorem Canonical.toUpper : (Code.letter code).toUpper = Code.letter code :=
  Char.toUpper_eq_of_not_isLower (by simp [Char.not_isLower_of_isUpper h.letter])

theorem Canonical.trim : Text.trim code.toList = Code.letter code :: Code.number code := by
  have hfront := Text.isBlank_of_isAlpha h.isAlpha
  have hblank : ∀ d ∈ Code.letter code :: Code.number code, Text.isBlank d = false :=
    List.forall_mem_cons.mpr ⟨hfront, h.number.isBlank⟩
  rw [h.toList]
  exact Text.trim_of_trimmed ⟨Text.stops_cons.mpr hfront, fun d hd => hblank d (List.mem_of_getLast? hd)⟩

theorem Canonical.reads (hinf : Code.number code ≠ ['i', 'n', 'f']) :
    Reads code (Code.letter code) (Code.number code) :=
  ⟨h.trim, h.isAlpha, h.number.positional hinf⟩

/-- The spelling of a code is a code with the same spelling, unless its number is infinite. -/
theorem Canonical.normalize_eq_self_iff :
    normalize code = .ok code ↔ Code.number code ≠ ['i', 'n', 'f'] := by
  constructor
  · intro hcode hinf
    obtain ⟨_, digits, hreads⟩ := exists_normalize_iff.mp ⟨code, hcode⟩
    have htrim := h.trim.symm.trans hreads.trim
    rw [hinf] at htrim
    cases htrim
    rcases hreads.number with hnil | hpositional
    · cases hnil
    · cases isNumber_iff.mpr hpositional
  · intro hinf
    have hreads := h.reads hinf
    by_cases hne : Code.number code = []
    · rw [hne] at hreads
      rw [hreads.normalize_bare, Except.ok.injEq, ← String.toList_inj, h.toList, hne, h.toUpper]
      exact String.toList_singleton _
    · rw [hreads.normalize_numbered hne, Except.ok.injEq, ← String.toList_inj, h.toList, toList_canonical,
        h.toUpper, ← h.number.eq_text hne hinf]

end

/-- Only an infinite number is spelled in letters. -/
theorem number_canonical_ne_iff :
    number (canonical c digits) ≠ ['i', 'n', 'f'] ↔ Binary64.isFinite (float digits) = true := by
  rw [number_of_toList (toList_canonical c digits)]
  cases hx : Binary64.isFinite (float digits) with
  | false =>
      have hinf : (Number.normalized (float digits)).text.toList = ['i', 'n', 'f'] := by
        rw [text_of_infinite hx]
        rfl
      simp [hinf]
  | true =>
      have hpositional := Number.positional_text hx (isNegative_float digits)
      simp only [ne_eq, iff_true]
      intro hinf
      rw [hinf] at hpositional
      cases isNumber_iff.mpr hpositional

/-- A bare letter counts as finite here: no digits are read as zero. -/
theorem Reads.normalize_eq_self_iff (h : Reads text c digits) (hcode : normalize text = .ok code) :
    normalize code = .ok code ↔ Binary64.isFinite (float digits) = true := by
  rw [(canonical_of_normalize hcode).normalize_eq_self_iff]
  by_cases hne : digits = []
  · subst hne
    rw [h.normalize_bare] at hcode
    cases hcode
    have hfinite : Binary64.isFinite (float []) = true := by decide +kernel
    simp [hfinite, number_of_toList (String.toList_singleton c.toUpper)]
  · rw [h.normalize_numbered hne] at hcode
    cases hcode
    exact number_canonical_ne_iff

/-- Normalizing accepts the texts that are codes. It gives two of them one spelling exactly if their letters
agree but for case and they have no number or numbers that are read alike. That spelling is normalized to
itself, unless its number is infinite. -/
theorem normalize_picks_spelling (a b : String) :
    ((∃ code, normalize a = .ok code) ↔ ∃ c ds, Reads a c ds) ∧
      ∀ c ds d es, Reads a c ds → Reads b d es →
        (normalize a = normalize b ↔
            c.toUpper = d.toUpper ∧ (ds = [] ∧ es = [] ∨ ds ≠ [] ∧ es ≠ [] ∧ float ds = float es)) ∧
          ∀ code, normalize a = .ok code →
            (normalize code = .ok code ↔ Binary64.isFinite (float ds) = true) :=
  ⟨exists_normalize_iff, fun _ _ _ _ ha hb =>
    ⟨ha.normalize_eq_iff hb, fun _ hcode => ha.normalize_eq_self_iff hcode⟩⟩

/-- The number of the first spelling is rounded to that of the second one. -/
theorem normalize_picks_spelling_large :
    Reads " g009007199254740993.0" 'g' "009007199254740993.0".toList ∧
      Reads "G9007199254740992\t" 'G' "9007199254740992".toList ∧
      normalize " g009007199254740993.0" = normalize "G9007199254740992\t" ∧
      normalize "G9007199254740992.0" = .ok "G9007199254740992.0" := by
  have ha : Reads " g009007199254740993.0" 'g' "009007199254740993.0".toList :=
    ⟨by decide +kernel, by decide, .inr (isNumber_iff.mp (by decide +kernel))⟩
  have hb : Reads "G9007199254740992\t" 'G' "9007199254740992".toList :=
    ⟨by decide +kernel, by decide, .inr (isNumber_iff.mp (by decide +kernel))⟩
  have hcode : normalize " g009007199254740993.0" = .ok "G9007199254740992.0" := by decide +kernel
  obtain ⟨hsame, hself⟩ := (normalize_picks_spelling _ _).2 _ _ _ _ ha hb
  refine ⟨ha, hb, hsame.mpr ⟨by decide, .inr ⟨by decide, by decide, by decide +kernel⟩⟩, ?_⟩
  exact (hself _ hcode).mpr (by decide +kernel)

end Code

end GCode
