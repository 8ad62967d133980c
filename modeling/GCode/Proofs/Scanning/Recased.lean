import GCode.Proofs.Scanning.Fitting

/-!
# Texts in another case

In a text the case of a letter shows only in comments and in the names of parameters. Two texts that differ
elsewhere in the case of letters alone have the same tokens, or the same error but for the case of the
character that it reports.
-/

namespace GCode

/-! ## Code, comments and names -/

/-- What a character of a text stands in: in code, in a comment or a name that ends with the character
`stop`, or in a comment that runs to the end. -/
inductive Region where
  | code
  | upTo (stop : Char)
  | toEnd
  deriving DecidableEq

/-- What the text `cs` behind `c` stands in. What is opened and not closed is no comment and no name. -/
def Region.next : Region → Char → List Char → Region
  | code, c, cs =>
    if c = '(' ∧ ')' ∈ cs then upTo ')'
    else if c = '<' ∧ '>' ∈ cs then upTo '>'
    else if c = ';' then toEnd
    else code
  | upTo stop, c, _ => if c = stop then code else upTo stop
  | toEnd, _, _ => toEnd

/-- Two texts of one length that differ only in the case of letters in code. -/
inductive Recased : Region → List Char → List Char → Prop where
  | nil {r} : Recased r [] []
  | cons {r c d cs ds} : c.toLower = d.toLower → (r ≠ .code → c = d) → Recased (r.next c cs) cs ds →
      Recased r (c :: cs) (d :: ds)

theorem recased_cons_iff {r : Region} {c d : Char} {cs ds : List Char} :
    Recased r (c :: cs) (d :: ds) ↔
      c.toLower = d.toLower ∧ (r ≠ .code → c = d) ∧ Recased (r.next c cs) cs ds := by
  constructor
  · rintro ⟨⟩
    rename_i hlower hsame hrest
    exact ⟨hlower, hsame, hrest⟩
  · rintro ⟨hlower, hsame, hrest⟩
    exact .cons hlower hsame hrest

instance decidableRecased : (r : Region) → (cs ds : List Char) → Decidable (Recased r cs ds)
  | _, [], [] => isTrue .nil
  | _, [], _ :: _ => isFalse nofun
  | _, _ :: _, [] => isFalse nofun
  | r, c :: cs, _ :: ds =>
    have := decidableRecased (r.next c cs) cs ds
    decidable_of_iff _ recased_cons_iff.symm

/-! ## What does not depend on case -/

/-- A function of a character that does not tell the two cases of a letter apart. -/
def CaseFree {α : Type} (f : Char → α) : Prop :=
  ∀ c, f c.toLower = f c

theorem caseFree_of_letters {α : Type} {f : Char → α}
    (h : ∀ n ∈ List.range' 65 26, f (Char.ofNat n).toLower = f (Char.ofNat n)) : CaseFree f := by
  intro c
  by_cases hc : 65 ≤ c.toNat ∧ c.toNat ≤ 90
  · have hletter := h c.toNat (List.mem_range'_1.mpr (by omega))
    rwa [Char.ofNat_toNat] at hletter
  · rw [Text.toLower_of_toNat hc]

theorem CaseFree.eq {α : Type} {f : Char → α} (hf : CaseFree f) {c d : Char} (h : c.toLower = d.toLower) :
    f c = f d := by
  rw [← hf c, h, hf d]

theorem caseFree_toUpper : CaseFree Char.toUpper :=
  caseFree_of_letters (by decide)

theorem caseFree_isDigit : CaseFree Char.isDigit :=
  caseFree_of_letters (by decide)

theorem caseFree_isGap : CaseFree isGap :=
  caseFree_of_letters (by decide)

theorem caseFree_ofChar? : CaseFree Sign.ofChar? :=
  caseFree_of_letters (by decide)

theorem caseFree_isCommentChar : CaseFree Lexeme.isCommentChar :=
  caseFree_of_letters (by decide)

theorem caseFree_isNameChar : CaseFree ParameterIndex.isNameChar :=
  caseFree_of_letters (by decide)

theorem caseFree_isWordLetter : CaseFree isWordLetter :=
  caseFree_of_letters (by decide)

/-- The characters that the scanner tells apart before it looks for a number or a keyword. -/
def marks : List Char :=
  ['[', ']', '=', '#', '(', '<', ';', ')', '>', '.']

theorem caseFree_mark {m : Char} (h : m ∈ marks) : CaseFree fun c => decide (c = m) := by
  have hall : marks.all (fun m => (List.range' 65 26).all fun n =>
      decide ((Char.ofNat n).toLower = m) == decide (Char.ofNat n = m)) = true := by decide
  refine caseFree_of_letters fun n hn => ?_
  exact beq_iff_eq.mp (List.all_eq_true.mp (List.all_eq_true.mp hall m h) n hn)

theorem eq_mark_iff {m c d : Char} (hm : m ∈ marks) (h : c.toLower = d.toLower) : c = m ↔ d = m :=
  decide_eq_decide.mp ((caseFree_mark hm).eq h)

theorem CaseFree.takeWhile {p : Char → Bool} (hp : CaseFree p) (cs : List Char) :
    (cs.map Char.toLower).takeWhile p = (cs.takeWhile p).map Char.toLower := by
  rw [List.takeWhile_map, show p ∘ Char.toLower = p from funext hp]

theorem CaseFree.dropWhile {p : Char → Bool} (hp : CaseFree p) (cs : List Char) :
    (cs.map Char.toLower).dropWhile p = (cs.dropWhile p).map Char.toLower := by
  rw [List.dropWhile_map, show p ∘ Char.toLower = p from funext hp]

section

variable {cs ds : List Char} (h : cs.map Char.toLower = ds.map Char.toLower)

include h

/-- Texts that differ in case only end together. -/
theorem nil_or_cons : cs = [] ∧ ds = [] ∨ ∃ c cs' d ds', cs = c :: cs' ∧ ds = d :: ds' ∧
    c.toLower = d.toLower ∧ cs'.map Char.toLower = ds'.map Char.toLower := by
  cases cs with
  | nil => exact .inl ⟨rfl, List.map_eq_nil_iff.mp h.symm⟩
  | cons c cs =>
      obtain ⟨d, ds', rfl, hd, hds⟩ := List.map_eq_cons_iff.mp h.symm
      exact .inr ⟨c, cs, d, ds', rfl, rfl, hd.symm, hds.symm⟩

theorem CaseFree.length_takeWhile {p : Char → Bool} (hp : CaseFree p) :
    (cs.takeWhile p).length = (ds.takeWhile p).length := by
  have hlength : ∀ es : List Char, ((es.map Char.toLower).takeWhile p).length = (es.takeWhile p).length := by
    intro es
    rw [hp.takeWhile, List.length_map]
  rw [← hlength, h, hlength]

theorem CaseFree.map_dropWhile {p : Char → Bool} (hp : CaseFree p) :
    (cs.dropWhile p).map Char.toLower = (ds.dropWhile p).map Char.toLower := by
  rw [← hp.dropWhile, h, hp.dropWhile]

theorem Operator.atFront?_eq : atFront? cs = atFront? ds := by
  have hstarts : ∀ ks, Text.startsIgnoringCase ks cs = Text.startsIgnoringCase ks ds := by
    intro ks
    rw [Bool.eq_iff_iff, Text.startsIgnoringCase_iff, Text.startsIgnoringCase_iff, h]
  simp only [atFront?, hstarts]

theorem Numeral.digits_eq : Text.digits cs = Text.digits ds := by
  have hdigits : ∀ es : List Char, Text.digits es = (es.map Char.toLower).takeWhile Char.isDigit := by
    intro es
    rw [caseFree_isDigit.takeWhile, Text.digits]
    refine (List.map_id _).symm.trans (List.map_congr_left fun c hc => ?_)
    have hdigit := Text.digit_le (Text.all_of_mem_takeWhile c hc)
    exact (Text.toLower_of_toNat (c := c) (by omega)).symm
  rw [hdigits, hdigits, h]

theorem Numeral.startsUnsigned_eq : startsUnsigned cs = startsUnsigned ds := by
  obtain ⟨rfl, rfl⟩ | ⟨c, cs, d, ds, rfl, rfl, hc, hrest⟩ := nil_or_cons h
  · rfl
  · obtain ⟨rfl, rfl⟩ | ⟨_, _, _, _, rfl, rfl, hc', _⟩ := nil_or_cons hrest
    · exact caseFree_isDigit.eq hc
    · simp only [startsUnsigned, caseFree_isDigit.eq hc, caseFree_isDigit.eq hc',
        eq_mark_iff (m := '.') (by decide) hc]

theorem Numeral.startsAt_eq (a : Bool) : startsAt a cs = startsAt a ds := by
  obtain ⟨rfl, rfl⟩ | ⟨c, cs, d, ds, rfl, rfl, hc, hrest⟩ := nil_or_cons h
  · rfl
  · rw [startsAt, startsAt, caseFree_ofChar?.eq hc, startsUnsigned_eq hrest, startsUnsigned_eq h]

theorem Numeral.scanUnsigned_eq (sign : Option Sign) : scanUnsigned sign cs = scanUnsigned sign ds := by
  have hdrop := caseFree_isDigit.map_dropWhile h
  rw [scanUnsigned, scanUnsigned, Text.digits, Text.digits, Text.drop_length_takeWhile,
    Text.drop_length_takeWhile, ← Text.digits, ← Text.digits, digits_eq h]
  generalize cs.dropWhile Char.isDigit = es, ds.dropWhile Char.isDigit = fs at hdrop
  obtain ⟨rfl, rfl⟩ | ⟨c, es, d, fs, rfl, rfl, hc, hrest⟩ := nil_or_cons hdrop
  · rfl
  · by_cases hpoint : c = '.'
    · obtain rfl := (eq_mark_iff (m := '.') (by decide) hc).mp hpoint
      subst hpoint
      simp only [digits_eq hrest]
    · have hpoint' := mt (eq_mark_iff (m := '.') (by decide) hc).mpr hpoint
      simp [hpoint, hpoint']

theorem Numeral.scan_eq : scan cs = scan ds := by
  obtain ⟨rfl, rfl⟩ | ⟨c, cs, d, ds, rfl, rfl, hc, hrest⟩ := nil_or_cons h
  · rfl
  · rw [scan, scan, caseFree_ofChar?.eq hc]
    cases Sign.ofChar? d with
    | some sign => exact scanUnsigned_eq hrest _
    | none => exact scanUnsigned_eq h _

end

/-! ## Recased texts -/

/-- What opens something that is not code. -/
def isOpening (c : Char) : Bool :=
  c = '(' || c = '<' || c = ';'

theorem caseFree_isOpening : CaseFree isOpening :=
  caseFree_of_letters (by decide)

theorem isOpening_of_isDigit {c : Char} (h : c.isDigit = true) : isOpening c = false := by
  have hdigits : ['(', '<', ';'].any Char.isDigit = false := by decide
  rw [← Bool.not_eq_true]
  intro hopening
  have hmem : c ∈ ['(', '<', ';'] := by simpa [isOpening, or_assoc] using hopening
  exact List.any_eq_false.mp hdigits c hmem h

theorem Operator.isOpening_keyword (op : Operator) : op.keyword.toList.any isOpening = false := by
  revert op
  exact of_longestFirst (by decide)

theorem Region.next_of_not_isOpening {c : Char} (h : isOpening c = false) (cs : List Char) :
    Region.code.next c cs = .code := by
  simp only [isOpening, Bool.or_eq_false_iff, decide_eq_false_iff_not] at h
  simp [Region.next, h]

namespace Recased

variable {r : Region} {cs ds : List Char}

theorem map_toLower (h : Recased r cs ds) : cs.map Char.toLower = ds.map Char.toLower := by
  induction h with
  | nil => rfl
  | cons hlower _ _ ih => rw [List.map_cons, List.map_cons, hlower, ih]

theorem eq_of_toEnd (h : Recased .toEnd cs ds) : cs = ds := by
  generalize hr : Region.toEnd = r at h
  induction h with
  | nil => rfl
  | cons _ hsame _ ih =>
      subst hr
      rw [hsame nofun, ih rfl]

/-- Code goes on behind a comment or a name, and up to its end the texts are the same. -/
theorem of_upTo {stop : Char} {body rest : List Char} (h : Recased (.upTo stop) (body ++ stop :: rest) ds)
    (hbody : stop ∉ body) : ∃ rest', ds = body ++ stop :: rest' ∧ Recased .code rest rest' := by
  induction body generalizing ds with
  | nil =>
      cases h with
      | cons _ hsame hrest =>
          rw [Region.next, if_pos rfl] at hrest
          exact ⟨_, by rw [← hsame nofun]; rfl, hrest⟩
  | cons c body ih =>
      rw [List.mem_cons, not_or] at hbody
      cases h with
      | cons _ hsame hrest =>
          rw [Region.next, if_neg (Ne.symm hbody.1)] at hrest
          obtain ⟨rest', rfl, hcode⟩ := ih hrest hbody.2
          exact ⟨rest', by rw [← hsame nofun]; rfl, hcode⟩

theorem drop {w : Nat} (h : Recased .code cs ds) (hplain : ∀ c ∈ cs.take w, isOpening c = false) :
    Recased .code (cs.drop w) (ds.drop w) := by
  induction w generalizing cs ds with
  | zero => exact h
  | succ w ih =>
      cases h with
      | nil => exact .nil
      | cons _ _ hrest =>
          obtain ⟨hc, hplain⟩ := List.forall_mem_cons.mp hplain
          rw [Region.next_of_not_isOpening hc] at hrest
          exact ih hrest hplain

/-- Where the characters behind an opening one stop: at the end of what it opens, at the end of the text, or
at another character. Only the first is inside a comment or a name. -/
theorem enclosed {q : Char → Bool} (h : Recased r cs ds) (stop : Char) (hq : CaseFree q)
    (hstop : q stop = false) (hmark : stop ∈ marks) (hr : stop ∈ cs → r = .upTo stop) :
    (cs.takeWhile q = ds.takeWhile q ∧
      (∃ rest rest', cs.dropWhile q = stop :: rest ∧ ds.dropWhile q = stop :: rest') ∧
      Recased .code (cs.drop ((ds.takeWhile q).length + 1)) (ds.drop ((ds.takeWhile q).length + 1))) ∨
    (cs.dropWhile q = [] ∧ ds.dropWhile q = []) ∨
    ∃ c d es fs, cs.dropWhile q = c :: es ∧ ds.dropWhile q = d :: fs ∧ c ≠ stop ∧ d ≠ stop ∧
      c.toLower = d.toLower := by
  have hdrop := hq.map_dropWhile h.map_toLower
  have hcut := List.takeWhile_append_dropWhile (p := q) (l := cs)
  cases hcs : cs.dropWhile q with
  | nil =>
      rw [hcs, eq_comm, List.map_nil, List.map_eq_nil_iff] at hdrop
      exact .inr (.inl ⟨rfl, hdrop⟩)
  | cons c rest =>
      rw [hcs, List.map_cons] at hdrop
      obtain ⟨d, fs, hds, hd, _⟩ := List.map_eq_cons_iff.mp hdrop.symm
      by_cases hc : c = stop
      · subst hc
        have hall : ∀ c ∈ cs.takeWhile q, q c = true := Text.all_of_mem_takeWhile
        generalize cs.takeWhile q = body at hcut hall
        rw [hcs] at hcut
        subst hcut
        have hbody : c ∉ body := by
          intro hmem
          cases hstop.symm.trans (hall c hmem)
        rw [hr (by simp)] at h
        obtain ⟨rest', rfl, hcode⟩ := h.of_upTo hbody
        have htake : (body ++ c :: rest').takeWhile q = body :=
          Text.takeWhile_append_of_stops hall (Text.stops_cons.mpr hstop)
        refine .inl ⟨htake.symm, ⟨rest, rest', rfl, ?_⟩, ?_⟩
        · rw [List.dropWhile_append_of_pos hall, List.dropWhile_cons, hstop]
          rfl
        · simpa [htake] using hcode
      · have hd' := mt (eq_mark_iff hmark hd).mp
        exact .inr (.inr ⟨c, d, rest, fs, rfl, hds, hc, mt (eq_mark_iff hmark hd).mp hc, hd.symm⟩)

end Recased

/-! ## Scanning -/

/-- The error with the character that it reports in lower case. -/
def LexicalError.lowered : LexicalError → LexicalError
  | unexpectedCharacter p c => unexpectedCharacter p c.toLower
  | e => e

/-- A spelling that does not start with an opening character has none. -/
theorem Token.Spelled.not_isOpening {t : Token} {c : Char} {cs : List Char} (h : t.Spelled (c :: cs))
    (hc : isOpening c = false) : ∀ d ∈ c :: cs, isOpening d = false := by
  generalize hspell : c :: cs = spelling at h
  intro d hd
  cases h with
  | number hn =>
      rcases Numeral.mem_spelling hn d hd with hdigit | rfl | rfl | rfl
      · exact isOpening_of_isDigit hdigit
      all_goals rfl
  | operator hop =>
      rename_i op
      rw [← caseFree_isOpening d, ← Bool.not_eq_true]
      exact List.any_eq_false.mp op.isOpening_keyword _ (hop ▸ List.mem_map_of_mem hd)
  | name | comment | lineComment =>
      cases hspell
      cases hc
  | _ =>
      cases hspell
      rwa [List.mem_singleton.mp hd]

theorem Lexeme.Fits.not_isOpening {a : Bool} {c : Char} {cs : List Char} {lexeme : Lexeme}
    (h : lexeme.Fits a (c :: cs)) (hc : isOpening c = false) :
    ∀ d ∈ (c :: cs).take lexeme.width, isOpening d = false := by
  have hspelled := h.spelled
  rw [← Nat.sub_add_cancel h.width_pos, List.take_succ_cons] at hspelled ⊢
  exact hspelled.not_isOpening hc

namespace Lexeme

/-- The same lexeme, and code behind it, or errors that differ only in case. -/
inductive Agree (cs ds : List Char) : Except LexicalError Lexeme → Except LexicalError Lexeme → Prop where
  | ok {lexeme : Lexeme} : Recased .code (cs.drop lexeme.width) (ds.drop lexeme.width) →
      Agree cs ds (.ok lexeme) (.ok lexeme)
  | error {e e' : LexicalError} : e.lowered = e'.lowered → Agree cs ds (.error e) (.error e')

variable {p : Nat} {cs ds : List Char}

theorem comment_agree (h : Recased (Region.code.next '(' cs) cs ds) :
    Agree ('(' :: cs) ('(' :: ds) (comment p cs) (comment p ds) := by
  have hlength := caseFree_isCommentChar.length_takeWhile h.map_toLower
  have hstops := h.enclosed ')' caseFree_isCommentChar rfl (by decide) fun hclosed => by
    rw [Region.next, if_pos ⟨rfl, hclosed⟩]
  rw [comment, comment, Text.drop_length_takeWhile, Text.drop_length_takeWhile]
  rcases hstops with ⟨htake, ⟨rest, rest', hcs, hds⟩, hcode⟩ | ⟨hcs, hds⟩ | ⟨c, d, es, fs, hcs, hds, hc, hd, _⟩
  · rw [hcs, hds, htake]
    exact .ok hcode
  · rw [hcs, hds]
    exact .error rfl
  · rw [hcs, hds, hlength]
    simp only
    exact .error rfl

theorem name_agree (h : Recased (Region.code.next '<' cs) cs ds) :
    Agree ('<' :: cs) ('<' :: ds) (name p cs) (name p ds) := by
  have hlength := caseFree_isNameChar.length_takeWhile h.map_toLower
  have hstops := h.enclosed '>' caseFree_isNameChar rfl (by decide) fun hclosed => by
    rw [Region.next, if_neg (by simp), if_pos ⟨rfl, hclosed⟩]
  rw [name, name, Text.drop_length_takeWhile, Text.drop_length_takeWhile]
  rcases hstops with ⟨htake, ⟨rest, rest', hcs, hds⟩, hcode⟩ | ⟨hcs, hds⟩ | ⟨c, d, es, fs, hcs, hds, hc, hd, hlower⟩
  · rw [hcs, hds, htake]
    dsimp only
    split
    · exact .ok hcode
    · exact .error rfl
  · rw [hcs, hds]
    exact .error rfl
  · rw [hcs, hds, hlength]
    simp only [hc, hd, decide_false, Bool.false_and, Bool.false_eq_true, if_false]
    refine .error ?_
    rw [LexicalError.lowered, LexicalError.lowered, hlower]

theorem keywordOrLetter_agree {a : Bool} {c d : Char} (h : Recased .code (c :: cs) (d :: ds))
    (hc : isOpening c = false) (hstart : Numeral.startsAt a (c :: cs) = false) :
    Agree (c :: cs) (d :: ds) (keywordOrLetter p c cs) (keywordOrLetter p d ds) := by
  have hlower := h.map_toLower
  obtain ⟨hcd, _⟩ := List.cons.inj hlower
  rw [keywordOrLetter, keywordOrLetter, ← Operator.atFront?_eq hlower, ← caseFree_toUpper.eq hcd,
    ← caseFree_isWordLetter.eq hcd]
  split
  · rename_i op hop
    have hfits : Fits a (c :: cs) ⟨.operator op, op.keyword.length⟩ :=
      keywordOrLetter_fits (p := p) hstart (by rw [keywordOrLetter, hop])
    exact .ok (h.drop (hfits.not_isOpening hc))
  · split
    · exact .ok (h.drop (by simpa using hc))
    · refine .error ?_
      rw [LexicalError.lowered, LexicalError.lowered, hcd]

/-- Where no mark stands the scanner finds a number, a keyword or a letter. -/
theorem scan_of_unmarked {a : Bool} {c : Char} (h : c ∉ ['[', ']', '=', '#', '(', '<', ';']) :
    scan a p c cs =
      if Numeral.startsAt a (c :: cs) then .ok (literal (c :: cs))
      else keywordOrLetter p c cs := by
  rw [scan]
  all_goals
    rintro rfl
    exact h (by decide)

theorem scan_agree {a : Bool} {c d : Char} (h : Recased .code (c :: cs) (d :: ds)) :
    Agree (c :: cs) (d :: ds) (scan a p c cs) (scan a p d ds) := by
  obtain ⟨hcd, _, hrest⟩ := recased_cons_iff.mp h
  have hmarks : ∀ m ∈ ['[', ']', '=', '#', '(', '<', ';'], m ∈ marks :=
    fun m hm => List.mem_append_left [')', '>', '.'] hm
  by_cases hmark : c ∈ ['[', ']', '=', '#', '(', '<', ';']
  · obtain rfl : d = c := (eq_mark_iff (hmarks c hmark) hcd).mp rfl
    simp only [List.mem_cons, List.not_mem_nil, or_false] at hmark
    rcases hmark with rfl | rfl | rfl | rfl | rfl | rfl | rfl
    · exact .ok hrest
    · exact .ok hrest
    · exact .ok hrest
    · exact .ok hrest
    · exact comment_agree hrest
    · exact name_agree hrest
    · obtain rfl := hrest.eq_of_toEnd
      exact .ok (by simpa [lineComment] using .nil)
  · have hmark' : d ∉ ['[', ']', '=', '#', '(', '<', ';'] := by
      intro hmem
      rw [(eq_mark_iff (hmarks d hmem) hcd).mpr rfl] at hmark
      exact hmark hmem
    have hc : isOpening c = false := by
      simp only [List.mem_cons, not_or] at hmark
      simp [isOpening, hmark]
    have hlower := h.map_toLower
    have hliteral : literal (d :: ds) = literal (c :: cs) := by
      rw [literal, literal, Literal.cut_eq, Literal.cut_eq, Numeral.scan_eq hlower]
    rw [scan_of_unmarked hmark, scan_of_unmarked hmark', ← Numeral.startsAt_eq hlower, hliteral]
    split
    · rename_i hstart
      exact .ok (h.drop ((literal_fits hstart).not_isOpening hc))
    · rename_i hstart
      exact keywordOrLetter_agree h hc (Bool.eq_false_iff.mpr hstart)

end Lexeme

/-! ## Whole texts -/

namespace Cursor

/-- The cursors stand in code, at the same place of two texts that differ only in case. -/
structure Recased (cursor other : Cursor) : Prop where
  position : cursor.position = other.position
  afterOperand : cursor.afterOperand = other.afterOperand
  rest : GCode.Recased .code cursor.rest other.rest

/-- What two cursors move over is the same, or both stop. -/
inductive Agree : Option (Except LexicalError (PlacedToken × Cursor)) →
    Option (Except LexicalError (PlacedToken × Cursor)) → Prop where
  | none : Agree none none
  | ok {token after other} : Recased after other → Agree (some (.ok (token, after))) (some (.ok (token, other)))
  | error {e e' : LexicalError} : e.lowered = e'.lowered → Agree (some (.error e)) (some (.error e'))

variable {cursor other : Cursor}

theorem Recased.skipGap (h : cursor.Recased other) : cursor.skipGap.Recased other.skipGap where
  position := by
    simp only [Cursor.skipGap, h.position, caseFree_isGap.length_takeWhile h.rest.map_toLower]
  afterOperand := h.afterOperand
  rest := by
    have hfront := List.prefix_iff_eq_take.mp (List.takeWhile_prefix isGap (l := cursor.rest))
    have hrest := h.rest.drop (w := (cursor.rest.takeWhile isGap).length) fun c hc => by
      rw [← hfront] at hc
      rcases isGap_iff.mp (Text.all_of_mem_takeWhile c hc) with rfl | rfl <;> rfl
    have hlength := caseFree_isGap.length_takeWhile h.rest.map_toLower
    rwa [Text.drop_length_takeWhile, hlength, Text.drop_length_takeWhile] at hrest

theorem Recased.next? (h : cursor.Recased other) : Agree cursor.next? other.next? := by
  have hskip := h.skipGap
  have hrest := hskip.rest
  rw [Cursor.next?, Cursor.next?, ← hskip.position, ← hskip.afterOperand]
  cases hcs : cursor.skipGap.rest with
  | nil =>
      rw [hcs] at hrest
      cases hds : other.skipGap.rest with
      | nil => exact .none
      | cons d ds => rw [hds] at hrest; cases hrest
  | cons c cs =>
      rw [hcs] at hrest
      cases hds : other.skipGap.rest with
      | nil => rw [hds] at hrest; cases hrest
      | cons d ds =>
          rw [hds] at hrest
          dsimp only
          have hscan := Lexeme.scan_agree (p := cursor.skipGap.position) (a := cursor.skipGap.afterOperand) hrest
          have hfits : ∀ lexeme, Lexeme.scan cursor.skipGap.afterOperand cursor.skipGap.position c cs = .ok lexeme →
              lexeme.Fits cursor.skipGap.afterOperand (c :: cs) := fun _ => Lexeme.scan_fits
          generalize Lexeme.scan cursor.skipGap.afterOperand cursor.skipGap.position c cs = found,
            Lexeme.scan cursor.skipGap.afterOperand cursor.skipGap.position d ds = found' at hscan hfits
          cases hscan with
          | error he => exact .error he
          | @ok lexeme hdrop =>
              refine .ok ⟨?_, rfl, ?_⟩
              · rw [advance, advance, hskip.position]
              · rw [advance, advance, Nat.max_eq_left (hfits lexeme rfl).width_pos, hcs, hds]
                exact hdrop

theorem Recased.run (h : cursor.Recased other) :
    cursor.run.1 = other.run.1 ∧ cursor.run.2.map LexicalError.lowered = other.run.2.map LexicalError.lowered := by
  induction cursor using run.induct generalizing other with
  | case1 cursor hnext =>
      have hagree := h.next?
      rw [hnext] at hagree
      generalize hother : other.next? = answer at hagree
      cases hagree
      rw [run_of_none hnext, run_of_none hother]
      exact ⟨rfl, rfl⟩
  | case2 cursor e hnext =>
      have hagree := h.next?
      rw [hnext] at hagree
      generalize hother : other.next? = answer at hagree
      cases hagree with
      | error he =>
          rw [run_of_error hnext, run_of_error hother]
          exact ⟨rfl, congrArg some he⟩
  | case3 cursor token after hnext _ _ _ ih =>
      have hagree := h.next?
      rw [hnext] at hagree
      generalize hother : other.next? = answer at hagree
      cases hagree with
      | ok hafter =>
          obtain ⟨htokens, hfailure⟩ := ih hafter
          rw [run_of_ok hnext, run_of_ok hother]
          exact ⟨congrArg (token :: ·) htokens, hfailure⟩

end Cursor

/-- Texts that differ only in the case of letters in code have the same tokens, or the same error but for
case. -/
theorem tokenize_recased {a b : String} (h : Recased .code a.toList b.toList) :
    (tokenize a).mapError LexicalError.lowered = (tokenize b).mapError LexicalError.lowered := by
  have hstart : (Cursor.start a.toList).Recased (Cursor.start b.toList) := ⟨rfl, rfl, h⟩
  obtain ⟨htokens, hfailure⟩ := hstart.run
  rw [tokenize, tokenize, Cursor.tokens, Cursor.tokens]
  generalize (Cursor.start a.toList).run = found, (Cursor.start b.toList).run = found' at htokens hfailure
  obtain ⟨tokens, failure⟩ := found
  obtain ⟨tokens', failure'⟩ := found'
  cases failure with
  | none =>
      cases failure' with
      | none => exact congrArg Except.ok htokens
      | some e' => cases hfailure
  | some e =>
      cases failure' with
      | none => cases hfailure
      | some e' => exact congrArg Except.error (Option.some.inj hfailure)

end GCode
