import GCode.Proofs.Flavor.Order
import GCode.Proofs.Scanning.Blank

/-!
# Written ranges

A range can be written with any spelling of its ends. What is read are the spellings, and each of them is
normalized to the code that it spells.
-/

namespace GCode

/-! ## Spelled codes -/

namespace Code

variable {p q : Char → Bool} {cs rest : List Char} {code : String} {c : Char} {digits : List Char}

/-- Digits, or digits with a point and more digits behind it. -/
inductive Positional (p : Char → Bool) : List Char → Prop where
  | whole {ds : List Char} (h : ∀ d ∈ ds, p d = true) (hne : ds ≠ []) : Positional p ds
  | point {ds es : List Char} (h : ∀ d ∈ ds, p d = true) (hne : ds ≠ []) (he : ∀ e ∈ es, p e = true)
      (hne' : es ≠ []) : Positional p (ds ++ '.' :: es)

theorem Positional.mono (h : Positional p cs) (hpq : ∀ c, p c = true → q c = true) : Positional q cs := by
  cases h with
  | whole h hne => exact .whole (fun d hd => hpq d (h d hd)) hne
  | point h hne he hne' =>
      exact .point (fun d hd => hpq d (h d hd)) hne (fun e he' => hpq e (he e he')) hne'

theorem positional_of_isNumber (h : isNumber cs = true) : Positional Char.isDigit cs := by
  have hcut := List.takeWhile_append_dropWhile (p := Char.isDigit) (l := cs)
  have hdigits : ∀ c ∈ cs.takeWhile Char.isDigit, c.isDigit = true := Text.all_of_mem_takeWhile
  rw [isNumber, scanNumber, Text.drop_length_takeWhile] at h
  generalize cs.takeWhile Char.isDigit = whole at h hcut hdigits
  generalize cs.dropWhile Char.isDigit = rest at h hcut
  subst hcut
  by_cases hne : whole = []
  · simp [hne] at h
  · simp only [List.isEmpty_iff, hne, ↓reduceIte] at h
    split at h
    · rename_i scanned hscan
      split at hscan
      · rename_i rest
        split at hscan
        · cases hscan
        · rename_i hfraction
          rw [Text.drop_length_takeWhile] at hscan
          have hrest : rest.dropWhile Char.isDigit = [] := (Prod.mk.inj (Option.some.inj hscan)).2
          have hall := List.takeWhile_append_dropWhile (p := Char.isDigit) (l := rest)
          rw [hrest, List.append_nil] at hall
          rw [hall] at hfraction
          refine .point hdigits hne ?_ hfraction
          rw [← hall]
          exact Text.all_of_mem_takeWhile
      · cases hscan
        rw [List.append_nil]
        exact .whole hdigits hne
    · cases h

/-- A number is scanned to its end, if what follows cannot be part of it. -/
theorem Positional.scanNumber (h : Positional p cs) (hpoint : p '.' = false) (hrest : Text.Stops p rest)
    (hrest' : Text.Stops (· = '.') rest) : Code.scanNumber p (cs ++ rest) = some (cs, rest) := by
  cases h with
  | whole h hne =>
      have hwhole := Text.takeWhile_append_of_stops h hrest
      simp only [Code.scanNumber, hwhole, List.drop_left, List.isEmpty_iff, hne, ↓reduceIte]
      split
      · simp at hrest'
      · rfl
  | @point ds es h hne he hne' =>
      have hstops : Text.Stops p ('.' :: (es ++ rest)) := Text.stops_cons.mpr hpoint
      have hwhole := Text.takeWhile_append_of_stops h hstops
      have hfraction := Text.takeWhile_append_of_stops he hrest
      simp only [Code.scanNumber, List.append_assoc, List.cons_append, hwhole, List.drop_left, List.isEmpty_iff,
        hne, ↓reduceIte, hfraction, hne']

theorem Positional.exists_cons (h : Positional p cs) : ∃ d ds, cs = d :: ds ∧ p d = true := by
  cases h with
  | @whole ds h hne =>
      obtain ⟨d, ds, rfl⟩ := List.exists_cons_of_ne_nil hne
      exact ⟨d, ds, rfl, h d List.mem_cons_self⟩
  | @point ds es h hne _ _ =>
      obtain ⟨d, ds, rfl⟩ := List.exists_cons_of_ne_nil hne
      exact ⟨d, ds ++ '.' :: es, rfl, h d List.mem_cons_self⟩

theorem Positional.isBlank (h : Positional Char.isDigit cs) : ∀ d ∈ cs, Text.isBlank d = false := by
  intro d hd
  cases h with
  | whole h _ => exact Text.isBlank_of_isDigit (h d hd)
  | point h _ he _ =>
      rcases List.mem_append.mp hd with hd | hd
      · exact Text.isBlank_of_isDigit (h d hd)
      · rcases List.mem_cons.mp hd with rfl | hd
        · decide
        · exact Text.isBlank_of_isDigit (he d hd)

/-- A spelling of a code with a number: its letter in either case, and digits for its value. -/
structure Spelled (code : String) (c : Char) (cs : List Char) : Prop where
  numbered : number code ≠ []
  letter : c.toUpper = letter code
  digits : isNumber cs = true
  value : (Numeral.scanUnsigned none cs).decimal.value = value code

theorem Spelled.isAlpha (h : Spelled code c cs) (hcode : Canonical code) : c.isAlpha = true := by
  rw [← Char.isUpper_toUpper_eq_isAlpha, h.letter]
  exact hcode.letter

theorem Spelled.normalize (h : Spelled code c cs) (hcode : Canonical code) (ho : Ordinary code) :
    Code.normalize (String.ofList (c :: cs)) = .ok code := by
  have halpha := h.isAlpha hcode
  have hfront := Text.isBlank_of_isAlpha halpha
  have hblank : ∀ d ∈ c :: cs, Text.isBlank d = false :=
    List.forall_mem_cons.mpr ⟨hfront, (positional_of_isNumber h.digits).isBlank⟩
  have htrim : Text.trim (c :: cs) = c :: cs :=
    Text.trim_of_trimmed ⟨Text.stops_cons.mpr hfront, fun d hd => hblank d (List.mem_of_getLast? hd)⟩
  refine normalize_eq_ok_iff.mpr ⟨c, cs, by rw [String.toList_ofList, htrim], halpha, .inr ⟨h.digits, ?_⟩⟩
  have hfloat : float (number code) = float cs := float_eq_of_value h.value.symm
  rw [← String.toList_inj, hcode.toList, toList_canonical, h.letter,
    hcode.number.eq_text h.numbered ho.ne_infinite, hfloat]

end Code

/-! ## Written ranges -/

namespace CodeRange

variable {c : Char} {start stop before after : List Char} {stopLetter : Option Char}

theorem readStop_append (hstop : Code.Positional Char.isDigit stop)
    (hletter : ∀ d ∈ stopLetter, d.isAlpha = true) :
    readStop c start (stopLetter.toList ++ stop) = some ⟨c, start, stopLetter, stop⟩ := by
  have hscan := (hstop.mono fun _ => Text.isDecimalDigit_of_isDigit).scanNumber (by decide)
    (Text.stops_nil _) (Text.stops_nil _)
  rw [List.append_nil] at hscan
  cases stopLetter with
  | some d =>
      simp only [readStop, Option.toList_some, List.singleton_append, hletter d rfl, ↓reduceIte, hscan]
  | none =>
      obtain ⟨d, ds, rfl, hd⟩ := hstop.exists_cons
      simp only [readStop, Option.toList_none, List.nil_append, Text.isAlpha_of_isDigit hd, Bool.false_eq_true,
        ↓reduceIte, hscan]

theorem read?_of_spelled (hc : c.isAlpha = true) (hstart : Code.Positional Char.isDigit start)
    (hstop : Code.Positional Char.isDigit stop) (hletter : ∀ d ∈ stopLetter, d.isAlpha = true)
    (hbefore : ∀ d ∈ before, Text.isBlank d = true) (hafter : ∀ d ∈ after, Text.isBlank d = true) :
    read? (c :: (start ++ (before ++ '-' :: (after ++ (stopLetter.toList ++ stop))))) =
      some ⟨c, start, stopLetter, stop⟩ := by
  have hstops (p : Char → Bool) (hdash : p '-' = false) (hblank : ∀ d, Text.isBlank d = true → p d = false) :
      Text.Stops p (before ++ '-' :: (after ++ (stopLetter.toList ++ stop))) := by
    cases before with
    | nil => exact Text.stops_cons.mpr hdash
    | cons d ds => exact Text.stops_cons.mpr (hblank d (hbefore d List.mem_cons_self))
  have hpoint (d : Char) (hd : Text.isBlank d = true) : decide (d = '.') = false := by
    rw [decide_eq_false_iff_not]
    rintro rfl
    cases hd
  have hscan := (hstart.mono fun _ => Text.isDecimalDigit_of_isDigit).scanNumber (by decide)
    (hstops _ (by decide) fun _ => Text.isDecimalDigit_of_isBlank) (hstops _ (by decide) hpoint)
  have hdash : (before ++ '-' :: (after ++ (stopLetter.toList ++ stop))).dropWhile Text.isBlank =
      '-' :: (after ++ (stopLetter.toList ++ stop)) := by
    rw [List.dropWhile_append_of_pos hbefore]
    exact Text.dropWhile_of_stops (Text.stops_cons.mpr (by decide))
  have hback : (after ++ (stopLetter.toList ++ stop)).dropWhile Text.isBlank = stopLetter.toList ++ stop := by
    rw [List.dropWhile_append_of_pos hafter]
    apply Text.dropWhile_of_stops
    cases stopLetter with
    | some d => exact Text.stops_cons.mpr (Text.isBlank_of_isAlpha (hletter d rfl))
    | none =>
        obtain ⟨d, ds, rfl, hd⟩ := hstop.exists_cons
        exact Text.stops_cons.mpr (hstop.isBlank d List.mem_cons_self)
  simp only [read?, hc, ↓reduceIte, hscan, hdash, hback]
  exact readStop_append hstop hletter

/-- How the range from one code to another is written: the codes in any spelling with a dash between them,
the letter once or twice, and blanks around the parts. -/
inductive Spelled (a b : String) : String → Prop where
  | intro {front before after back : List Char} {c : Char} {start stop : List Char} {stopLetter : Option Char}
      (hblank : ∀ d ∈ front ++ before ++ after ++ back, Text.isBlank d = true)
      (hstart : Code.Spelled a c start) (hstop : Code.Spelled b c stop)
      (hletter : ∀ d ∈ stopLetter, d.toUpper = c.toUpper) :
      Spelled a b (String.ofList
        (front ++ c :: (start ++ (before ++ '-' :: (after ++ (stopLetter.toList ++ stop)))) ++ back))

end CodeRange

/-- A written range stands for the range between its ends. -/
theorem CodeTable.expand_of_spelled {table : CodeTable} {a b text holder : String} (ha : Code.Canonical a)
    (hb : Code.Canonical b) (hao : Code.Ordinary a) (hbo : Code.Ordinary b) (h : CodeRange.Spelled a b text) :
    table.expand text holder = table.range a b := by
  obtain ⟨hblank, hstart, hstop, hletter⟩ := h
  rename_i front before after back c start stop stopLetter
  have halpha := hstart.isAlpha ha
  have hstart' := Code.positional_of_isNumber hstart.digits
  have hstop' := Code.positional_of_isNumber hstop.digits
  have hletter' : ∀ d ∈ stopLetter, d.isAlpha = true := by
    intro d hd
    rw [← Char.isUpper_toUpper_eq_isAlpha, hletter d hd, Char.isUpper_toUpper_eq_isAlpha]
    exact halpha
  simp only [List.mem_append, or_imp, forall_and] at hblank
  obtain ⟨⟨⟨hfront, hbefore⟩, hafter⟩, hback⟩ := hblank
  have htrimmed : Text.Trimmed Text.isBlank
      (c :: (start ++ (before ++ '-' :: (after ++ (stopLetter.toList ++ stop))))) := by
    refine ⟨Text.stops_cons.mpr (Text.isBlank_of_isAlpha halpha), fun d hd => ?_⟩
    -- the text ends with its last number
    obtain ⟨e, es, rfl, _⟩ := hstop'.exists_cons
    have hsplit : c :: (start ++ (before ++ '-' :: (after ++ (stopLetter.toList ++ e :: es)))) =
        (c :: (start ++ (before ++ '-' :: (after ++ stopLetter.toList)))) ++ e :: es := by simp
    rw [hsplit, List.getLast?_append_of_ne_nil _ (List.cons_ne_nil e es)] at hd
    exact hstop'.isBlank d (List.mem_of_getLast? hd)
  have huniform : CodeRange.isUniform ⟨c, start, stopLetter, stop⟩ = true := by
    cases stopLetter with
    | none => rfl
    | some d => exact decide_eq_true (hletter d rfl)
  rw [expand, String.toList_ofList, Text.trim_append hfront hback htrimmed,
    CodeRange.read?_of_spelled halpha hstart' hstop' hletter' hbefore hafter]
  simp only [huniform, CodeRange.startText, CodeRange.stopText, hstart.normalize ha hao,
    hstop.normalize hb hbo]
  rfl

end GCode
