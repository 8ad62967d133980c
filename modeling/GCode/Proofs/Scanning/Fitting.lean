import GCode.Proofs.Printing.Scans
import GCode.Proofs.Scanning.Blank

/-!
# Lexemes that fit are found

What a lexeme is decides what the scanner finds. So a token is found again if the text is cut behind it
and goes on with a space.
-/

namespace GCode

theorem Operator.keyword_injective {op op' : Operator} (h : op.keyword.toList = op'.keyword.toList) :
    op = op' := by
  have hfront := congrArg Operator.atFront? h
  rw [Operator.atFront?_keyword, Operator.atFront?_keyword] at hfront
  exact Option.some.inj hfront

/-- The longest keyword at the front is the only one of its length there. -/
theorem Operator.atFront?_of_longest {op : Operator} {cs : List Char}
    (hstarts : Text.startsIgnoringCase op.keyword.toList cs = true)
    (hlongest : ∀ op' : Operator, Text.startsIgnoringCase op'.keyword.toList cs = true →
      op'.keyword.length ≤ op.keyword.length) : atFront? cs = some op := by
  cases hfront : atFront? cs with
  | none =>
      rw [atFront?_eq_none hfront op] at hstarts
      cases hstarts
  | some op' =>
      obtain ⟨hstarts', hlongest'⟩ := atFront?_eq_some hfront
      have hlength := Nat.le_antisymm (hlongest op' hstarts') (hlongest' op hstarts)
      obtain ⟨_, htake⟩ := starts_iff.mp hstarts
      obtain ⟨_, htake'⟩ := starts_iff.mp hstarts'
      rw [hlength, htake] at htake'
      rw [keyword_injective htake']

namespace Lexeme

/-! ## Characters that start words -/

theorem startsWord_of_toNat {c : Char}
    (h : (65 ≤ c.toNat ∧ c.toNat ≤ 90) ∨ (97 ≤ c.toNat ∧ c.toNat ≤ 122)) : startsWord c = true := by
  have hdigit : c.isDigit = false := by
    rw [← Bool.not_eq_true, Char.isDigit_iff_toNat]
    change ¬ (48 ≤ c.toNat ∧ c.toNat ≤ 57)
    omega
  have hspecial : ∀ d ∈ ['[', ']', '=', '#', '(', '<', ';', ' ', '\t', '.'], c ≠ d := by
    rintro d hd rfl
    revert h hd
    have hall : ['[', ']', '=', '#', '(', '<', ';', ' ', '\t', '.'].all fun d =>
        !((65 ≤ d.toNat && d.toNat ≤ 90) || (97 ≤ d.toNat && d.toNat ≤ 122)) := by decide
    intro h hd
    have hd' := List.all_eq_true.mp hall c hd
    simp at hd'
    omega
  simp only [startsWord, hdigit, Bool.or_false, Bool.not_eq_true', List.contains_eq_mem,
    decide_eq_false_iff_not]
  exact fun hmem => hspecial c hmem rfl

theorem startsWord_of_toUpper {c : Char} (h : startsWord c.toUpper = true) : startsWord c = true := by
  by_cases hlower : 97 ≤ c.toNat ∧ c.toNat ≤ 122
  · exact startsWord_of_toNat (.inr hlower)
  · rwa [Text.toUpper_of_toNat hlower] at h

theorem startsWord_of_toLower {c : Char} (h : startsWord c.toLower = true) : startsWord c = true := by
  by_cases hupper : 65 ≤ c.toNat ∧ c.toNat ≤ 90
  · exact startsWord_of_toNat (.inl hupper)
  · rwa [Text.toLower_of_toNat hupper] at h

/-! ## Finding -/

variable {a : Bool} {p : Nat} {c : Char} {cs : List Char} {lexeme : Lexeme}

/-- Only a number starts like a numeral. -/
theorem Fits.startsAt (h : Fits a (c :: cs) lexeme) (hno : ¬ lexeme.token.IsNumber)
    (hword : startsWord c = true) : Numeral.startsAt a (c :: cs) = false := by
  rw [Numeral.startsAt]
  split
  · rename_i hsign
    cases hstart : Numeral.startsUnsigned cs with
    | false => simp
    | true =>
        have ha : a ≠ false := fun ha => hno ((h.sign c cs rfl hsign hstart).mpr ha)
        simpa using ha
  · exact startsUnsigned_of_startsWord hword

theorem Fits.width_eq {ds : List Char} (h : Fits a cs lexeme) (hds : cs.take lexeme.width = ds) :
    lexeme.width = ds.length := by
  rw [← hds, List.length_take, Nat.min_eq_left h.width_le]

theorem Fits.scan_letter {d : Char} (h : Fits a (c :: cs) lexeme) (ht : lexeme.token = .letter d.toUpper)
    (htake : (c :: cs).take lexeme.width = [d]) (hd : d.toUpper = 'N' ∨ d.toUpper ∈ wordLetters) :
    scan a p c cs = .ok lexeme := by
  obtain ⟨token, width⟩ := lexeme
  subst ht
  obtain rfl : width = 1 := h.width_eq htake
  obtain rfl : c = d := by simpa using htake
  have hletters : ('N' :: wordLetters).all startsWord = true := by decide
  have hword := startsWord_of_toUpper (List.all_eq_true.mp hletters _ (List.mem_cons.mpr hd))
  have hfront : Operator.atFront? (c :: cs) = none := by
    rw [Operator.atFront?, List.find?_eq_none]
    intro op _
    rw [h.maximal op]
    exact Bool.false_ne_true
  rw [scan_eq_keywordOrLetter hword (h.startsAt id hword), keywordOrLetter, hfront]
  simp [isWordLetter, hd]

theorem Fits.scan_number {n : Numeral} (h : Fits a (c :: cs) lexeme)
    (ht : lexeme.token = .number n.number n.classify)
    (htake : (c :: cs).take lexeme.width = n.spelling) (hn : n.WellFormed) :
    scan a p c cs = .ok lexeme := by
  obtain ⟨token, width⟩ := lexeme
  subst ht
  obtain rfl : width = n.spelling.length := h.width_eq htake
  have hcs := List.take_append_drop n.spelling.length (c :: cs)
  rw [htake] at hcs
  have hhead : ∀ d ∈ ((c :: cs).drop n.spelling.length).head?,
      d.isDigit = false ∧ (d = '.' → '.' ∈ n.spelling) := by
    intro d hd
    rw [List.head?_drop] at hd
    have hmax := h.maximal d hd
    rwa [htake] at hmax
  have hstop : n.Stops ((c :: cs).drop n.spelling.length) := by
    refine ⟨fun d hd => (hhead d hd).1, fun hnone d hd => decide_eq_false fun hpoint => ?_⟩
    exact Numeral.point_notMem_spelling hn hnone ((hhead d hd).2 hpoint)
  have hstart := Numeral.startsAt_spelling hn ((c :: cs).drop n.spelling.length)
  have hread := Numeral.scan_spelling hn hstop
  rw [hcs] at hstart hread
  have hstart' : Numeral.startsAt a (c :: cs) = true := by
    cases a with
    | false => exact hstart
    | true =>
        rw [Numeral.startsAt] at hstart ⊢
        split at hstart
        · rename_i hsign
          have ha := (h.sign c cs rfl hsign (by simpa using hstart)).mp trivial
          cases ha
        · rename_i hsign
          rwa [if_neg hsign]
  rw [scan_of_startsAt hstart', hread]
  rfl

theorem Fits.scan_operator {op : Operator} (h : Fits a (c :: cs) lexeme) (ht : lexeme.token = .operator op)
    (htake : ((c :: cs).take lexeme.width).map Char.toLower = op.keyword.toList) :
    scan a p c cs = .ok lexeme := by
  obtain ⟨token, width⟩ := lexeme
  subst ht
  obtain rfl : width = op.keyword.length := by
    rw [← String.length_toList, ← htake, List.length_map, List.length_take, Nat.min_eq_left h.width_le]
  have hword : startsWord c = true := by
    have hkeyword := startsWord_keyword op
    have hpos := op.keyword_length_pos
    rw [← htake, ← Nat.sub_add_cancel hpos] at hkeyword
    exact startsWord_of_toLower hkeyword
  have hfront := Operator.atFront?_of_longest (Operator.starts_iff.mpr ⟨h.width_le, htake⟩) h.maximal
  rw [scan_eq_keywordOrLetter hword (h.startsAt id hword), keywordOrLetter, hfront]

/-- The scanner finds what fits, and nothing else. -/
theorem scan_eq_ok_iff : scan a p c cs = .ok lexeme ↔ Fits a (c :: cs) lexeme := by
  refine ⟨scan_fits, fun h => ?_⟩
  obtain ⟨token, width⟩ := lexeme
  have hspelled := h.spelled
  generalize htake : (c :: cs).take width = spelling at hspelled
  have hwidth : width = spelling.length := h.width_eq htake
  obtain ⟨rest, hcut⟩ : ∃ rest, c :: cs = spelling ++ rest :=
    ⟨_, by rw [← htake, List.take_append_drop]⟩
  cases hspelled with
  | letter hc => exact h.scan_letter rfl htake hc
  | number hn => exact h.scan_number rfl htake hn
  | operator hop => exact h.scan_operator rfl (by rw [htake, hop])
  | name hne hall =>
      cases hcut
      have hscan := scan_name hne hall a p rest
      simpa [hwidth] using hscan
  | comment hl hr =>
      cases hcut
      have hscan := scan_comment hl hr a p rest
      simpa [hwidth] using hscan
  | lineComment htext =>
      have hall : width = (c :: cs).length := h.maximal
      rw [List.take_of_length_le (Nat.le_of_eq hall.symm)] at htake
      cases htake
      simp [scan, lineComment, hall, ← htext]
  | _ =>
      cases hcut
      cases hwidth
      rfl

/-! ## What stands behind a token -/

/-- No numeral and no keyword goes on with the character. -/
structure Breaks (d : Char) : Prop where
  digit : d.isDigit = false
  point : d ≠ '.'
  keyword : Operator.Free d

theorem breaks_of_isGap {d : Char} (h : isGap d = true) : Breaks d := by
  rcases isGap_iff.mp h with rfl | rfl
  · exact ⟨rfl, by decide, Operator.free_space⟩
  · exact ⟨rfl, by decide, Operator.of_longestFirst (by decide)⟩

theorem startsUnsigned_append {cs : List Char} (h : Numeral.startsUnsigned cs = true) (rest : List Char) :
    Numeral.startsUnsigned (cs ++ rest) = true := by
  cases cs with
  | nil => cases h
  | cons c cs =>
      rw [List.cons_append, Numeral.startsUnsigned_cons] at *
      rcases h with hdigit | ⟨hpoint, d, hd, hdigit⟩
      · exact .inl hdigit
      · exact .inr ⟨hpoint, d, by rw [List.head?_append, hd]; rfl, hdigit⟩

theorem startsUnsigned_of_append {cs rest : List Char} (h : Numeral.startsUnsigned (cs ++ rest) = true)
    (hrest : ∀ d ∈ rest.head?, Breaks d) : Numeral.startsUnsigned cs = true := by
  cases cs with
  | nil =>
      cases rest with
      | nil => cases h
      | cons d rest =>
          have hd := hrest d rfl
          rcases Numeral.startsUnsigned_cons.mp h with hdigit | ⟨hpoint, _⟩
          · rw [hd.digit] at hdigit
            cases hdigit
          · exact absurd hpoint hd.point
  | cons c cs =>
      rw [List.cons_append, Numeral.startsUnsigned_cons] at *
      rcases h with hdigit | ⟨hpoint, d, hd, hdigit⟩
      · exact .inl hdigit
      · cases cs with
        | nil =>
            rw [(hrest d hd).digit] at hdigit
            cases hdigit
        | cons _ _ => exact .inr ⟨hpoint, d, hd, hdigit⟩

theorem starts_append {op : Operator} {cs : List Char}
    (h : Text.startsIgnoringCase op.keyword.toList cs = true) (rest : List Char) :
    Text.startsIgnoringCase op.keyword.toList (cs ++ rest) = true := by
  rw [Text.startsIgnoringCase_iff, List.map_append] at *
  exact h.trans (List.prefix_append _ _)

theorem starts_of_append {op : Operator} {cs rest : List Char}
    (h : Text.startsIgnoringCase op.keyword.toList (cs ++ rest) = true)
    (hrest : ∀ d ∈ rest.head?, Breaks d) : Text.startsIgnoringCase op.keyword.toList cs = true := by
  rwa [Text.startsIgnoringCase_append] at h
  rw [op.map_toLower_keyword]
  exact fun d hd => (hrest d hd).keyword op

theorem maximal_truncate {token : Token} {cs rest : List Char} {w : Nat} (h : token.Maximal (cs ++ rest) w)
    (hw : w ≤ cs.length) (hline : ∀ text, token ≠ .lineComment text) : token.Maximal cs w := by
  cases token with
  | letter c =>
      intro op
      cases hstarts : Text.startsIgnoringCase op.keyword.toList cs with
      | false => rfl
      | true =>
          have hnone := h op
          rw [starts_append hstarts] at hnone
          cases hnone
  | number n cls =>
      intro d hd
      have hlt := (List.getElem?_eq_some_iff.mp hd).1
      have hthis := h d (by rw [List.getElem?_append_left hlt, hd])
      rwa [List.take_append_of_le_length hw] at hthis
  | operator op => exact fun op' hop' => h op' (starts_append hop' rest)
  | lineComment text => exact absurd rfl (hline text)
  | _ => trivial

theorem maximal_extend {token : Token} {cs rest : List Char} {w : Nat} (h : token.Maximal cs w)
    (hw : w ≤ cs.length) (hline : ∀ text, token ≠ .lineComment text)
    (hrest : ∀ d ∈ rest.head?, Breaks d) : token.Maximal (cs ++ rest) w := by
  cases token with
  | letter c =>
      intro op
      cases hstarts : Text.startsIgnoringCase op.keyword.toList (cs ++ rest) with
      | false => rfl
      | true =>
          have hnone := h op
          rw [starts_of_append hstarts hrest] at hnone
          cases hnone
  | number n cls =>
      intro d hd
      rw [List.take_append_of_le_length hw]
      rcases Nat.lt_or_eq_of_le hw with hlt | heq
      · rw [List.getElem?_append_left hlt] at hd
        exact h d hd
      · rw [heq, List.getElem?_append_right (Nat.le_refl _), Nat.sub_self, ← List.head?_eq_getElem?] at hd
        have hbreak := hrest d hd
        exact ⟨hbreak.digit, fun hpoint => absurd hpoint hbreak.point⟩
  | operator op => exact fun op' hop' => h op' (starts_of_append hop' hrest)
  | lineComment text => exact absurd rfl (hline text)
  | _ => trivial

/-- A lexeme fits the front of a text in which it stands. -/
theorem Fits.truncate {cs rest : List Char} (h : Fits a (cs ++ rest) lexeme) (hw : lexeme.width ≤ cs.length)
    (hline : ∀ text, lexeme.token ≠ .lineComment text) : Fits a cs lexeme where
  width_pos := h.width_pos
  width_le := hw
  spelled := by
    have hspelled := h.spelled
    rwa [List.take_append_of_le_length hw] at hspelled
  maximal := maximal_truncate h.maximal hw hline
  sign := by
    rintro s cs' rfl hsign hstart
    exact h.sign s (cs' ++ rest) rfl hsign (startsUnsigned_append hstart rest)

/-- Any text that starts with a character that breaks a lexeme can follow it. -/
theorem Fits.extend {cs rest : List Char} (h : Fits a cs lexeme)
    (hline : ∀ text, lexeme.token ≠ .lineComment text) (hrest : ∀ d ∈ rest.head?, Breaks d) :
    Fits a (cs ++ rest) lexeme where
  width_pos := h.width_pos
  width_le := by
    rw [List.length_append]
    exact Nat.le_add_right_of_le h.width_le
  spelled := by
    rw [List.take_append_of_le_length h.width_le]
    exact h.spelled
  maximal := maximal_extend h.maximal h.width_le hline hrest
  sign := by
    intro s rest' htext hsign hstart
    cases cs with
    | nil =>
        have hpos := h.width_pos
        have hle := h.width_le
        simp at hle
        omega
    | cons c cs =>
        cases htext
        exact h.sign s cs rfl hsign (startsUnsigned_of_append hstart hrest)

/-- What follows a lexeme can be replaced by a space and any text. -/
theorem Fits.cut {pre post : List Char} (h : Fits a (pre ++ post) lexeme) (hw : lexeme.width ≤ pre.length)
    (hline : ∀ text, lexeme.token ≠ .lineComment text) (more : List Char) :
    Fits a (pre ++ ' ' :: more) lexeme := by
  refine (h.truncate hw hline).extend hline ?_
  rintro _ ⟨⟩
  exact breaks_of_isGap rfl

theorem Fits.isBlank_head (h : Fits a (c :: cs) lexeme) : Text.isBlank c = false := by
  have hspelled := h.spelled
  rw [← Nat.sub_add_cancel h.width_pos, List.take_succ_cons] at hspelled
  exact hspelled.isBlank_head

theorem Fits.isGap_head (h : Fits a (c :: cs) lexeme) : isGap c = false := by
  cases hgap : isGap c with
  | false => rfl
  | true => exact (isBlank_of_isGap hgap).symm.trans h.isBlank_head

end Lexeme

theorem Scans.of_fits {a : Bool} {cs : List Char} {lexeme : Lexeme} (h : lexeme.Fits a cs) :
    Scans a cs [lexeme.token] lexeme.token.endsOperand (cs.drop lexeme.width) := by
  cases cs with
  | nil =>
      have hpos := h.width_pos
      have hle := h.width_le
      simp at hle
      omega
  | cons c cs =>
      exact Scans.lexeme h.isGap_head (fun p => Lexeme.scan_eq_ok_iff.mpr h) h.width_pos rfl

theorem Scans.gaps {a b : Bool} {cs ds rest : List Char} {ts : List Token} (hcs : ∀ c ∈ cs, isGap c = true)
    (h : Scans a ds ts b rest) : Scans a (cs ++ ds) ts b rest := by
  induction cs with
  | nil => exact h
  | cons c cs ih =>
      obtain ⟨hc, hcs⟩ := List.forall_mem_cons.mp hcs
      exact (ih hcs).gap hc

/-! ## Cutting between two tokens -/

/-- The characters from `start` up to `stop`. -/
def Text.slice (cs : List Char) (start stop : Nat) : List Char :=
  (cs.drop start).take (stop - start)

theorem Text.slice_append {cs : List Char} {start mid stop : Nat} (h : start ≤ mid) (h' : mid ≤ stop) :
    slice cs start mid ++ slice cs mid stop = slice cs start stop := by
  rw [slice, slice, slice, ← Nat.sub_add_sub_cancel h' h, Nat.add_comm, List.take_add, List.drop_drop,
    Nat.add_sub_cancel' h]

theorem Text.slice_append_drop {cs : List Char} {start stop : Nat} (h : start ≤ stop) :
    slice cs start stop ++ cs.drop stop = cs.drop start := by
  rw [slice, ← Nat.add_sub_cancel' h, ← List.drop_drop, Nat.add_sub_cancel_left, List.take_append_drop]

theorem Text.length_slice {cs : List Char} {start stop : Nat} (h : stop ≤ cs.length) :
    (slice cs start stop).length = stop - start := by
  rw [slice, List.length_take, List.length_drop]
  omega

theorem Gap.slice {text : List Char} {start stop : Nat} (h : Gap text start stop) :
    ∀ c ∈ Text.slice text start stop, isGap c = true := by
  intro c hc
  obtain ⟨i, hi⟩ := List.getElem?_of_mem hc
  rw [Text.slice, List.getElem?_take] at hi
  split at hi
  · rw [List.getElem?_drop] at hi
    exact isGap_iff.mpr (h _ c hi (Nat.le_add_right _ _) (by omega))
  · cases hi

/-- The text in front of `n` scans for itself if no token stands across `n`. -/
theorem Cuts.scans_front {text : List Char} {start n : Nat} {flag : Bool} {before after : List Piece}
    (h : Cuts text start flag (before ++ after)) (hstart : start ≤ n) (hn : n ≤ text.length)
    (hbefore : ∀ p ∈ before, p.stop ≤ n ∧ ∀ comment, p.token ≠ .lineComment comment)
    (hafter : ∀ p ∈ after, n ≤ p.position) (more : List Char) :
    ∃ b, Scans flag (Text.slice text start n ++ ' ' :: more) (before.map Piece.token) b (' ' :: more) := by
  induction before generalizing start flag with
  | nil =>
      have hgap : Gap text start n := by
        cases h with
        | nil hgap => exact fun i c hc hle hlt => hgap i c hc hle (by omega)
        | cons _ hgap _ _ =>
            have hp := hafter _ List.mem_cons_self
            exact fun i c hc hle hlt => hgap i c hc hle (by omega)
      exact ⟨flag, .gaps hgap.slice (.nil flag _)⟩
  | cons p before ih =>
      obtain ⟨⟨hstop, hline⟩, hbefore⟩ := List.forall_mem_cons.mp hbefore
      cases h with
      | cons hle hgap hfits hcuts =>
          obtain ⟨b, hb⟩ := ih hcuts hstop hbefore
          have hp : p.position ≤ n := Nat.le_trans (Nat.le_add_right _ _) hstop
          have hwidth : p.width ≤ (Text.slice text p.position n).length := by
            rw [Text.length_slice hn]
            simp only [Piece.stop] at hstop
            omega
          rw [← Text.slice_append_drop hp] at hfits
          have hscans := Scans.of_fits (hfits.cut hwidth hline more)
          have hdrop : (Text.slice text p.position n ++ ' ' :: more).drop p.width =
              Text.slice text p.stop n ++ ' ' :: more := by
            rw [List.drop_append_of_le_length hwidth, Text.slice, List.drop_take, List.drop_drop, Text.slice,
              Piece.stop, Nat.sub_sub]
          rw [show p.lexeme.width = p.width from rfl, hdrop] at hscans
          refine ⟨b, ?_⟩
          rw [← Text.slice_append hle hp, List.append_assoc]
          exact .gaps hgap.slice (hscans.append hb)

end GCode
