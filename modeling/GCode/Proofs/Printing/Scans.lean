import GCode.Proofs.Scanning.Cutting

/-!
# Scanning the front of a text

A printed text is scanned one part after the other. What a part scans as does not depend on where it
stands, only on whether an operand ends before it and on the first character behind it.
-/

namespace GCode

/-- With the flag `a` the front of `cs` scans as `ts`, and leaves `rest` with the flag `b`. -/
def Scans (a : Bool) (cs : List Char) (ts : List Token) (b : Bool) (rest : List Char) : Prop :=
  ∀ p, ∃ q placed, placed.map PlacedToken.token = ts ∧
    Cursor.run ⟨p, a, cs⟩ = (placed ++ (Cursor.run ⟨q, b, rest⟩).1, (Cursor.run ⟨q, b, rest⟩).2)

/-! ## Parts -/

theorem Cursor.run_congr {c d : Cursor} (h : c.next? = d.next?) : c.run = d.run := by
  match hd : d.next? with
  | none => rw [run_of_none hd, run_of_none (h.trans hd)]
  | some (.error e) => rw [run_of_error hd, run_of_error (h.trans hd)]
  | some (.ok (token, after)) => rw [run_of_ok hd, run_of_ok (h.trans hd)]

theorem Cursor.next?_of_scan {a : Bool} {p : Nat} {c : Char} {cs : List Char} {t : Token} {w : Nat}
    (hgap : isGap c = false) (hscan : Lexeme.scan a p c cs = .ok ⟨t, w⟩) (hwidth : 0 < w) :
    next? ⟨p, a, c :: cs⟩ = some (.ok (⟨t, p⟩, ⟨p + w, t.endsOperand, (c :: cs).drop w⟩)) := by
  have hskip : (Cursor.mk p a (c :: cs)).skipGap = ⟨p, a, c :: cs⟩ := by
    simp [skipGap, hgap]
  simp only [next?, hskip, hscan, advance, Nat.max_eq_left hwidth]

namespace Scans

theorem nil (a : Bool) (cs : List Char) : Scans a cs [] a cs :=
  fun p => ⟨p, [], rfl, rfl⟩

theorem append {a b c : Bool} {cs ds es : List Char} {ts us : List Token} (h : Scans a cs ts b ds)
    (h' : Scans b ds us c es) : Scans a cs (ts ++ us) c es := by
  intro p
  obtain ⟨q, placed, rfl, hrun⟩ := h p
  obtain ⟨r, placed', rfl, hrun'⟩ := h' q
  exact ⟨r, placed ++ placed', by simp, by rw [hrun, hrun', List.append_assoc]⟩

theorem gap {a b : Bool} {c : Char} {cs rest : List Char} {ts : List Token} (h : Scans a cs ts b rest)
    (hc : isGap c = true) : Scans a (c :: cs) ts b rest := by
  intro p
  have hskip : (Cursor.mk p a (c :: cs)).skipGap = (Cursor.mk (p + 1) a cs).skipGap := by
    simp only [Cursor.skipGap, List.takeWhile_cons, List.dropWhile_cons, hc, ↓reduceIte, List.length_cons]
    congr 1
    omega
  rw [Cursor.run_congr (show Cursor.next? ⟨p, a, c :: cs⟩ = Cursor.next? ⟨p + 1, a, cs⟩ by
    rw [Cursor.next?, hskip, ← Cursor.next?])]
  exact h (p + 1)

theorem space {a b : Bool} {cs rest : List Char} {ts : List Token} (h : Scans a cs ts b rest) :
    Scans a (' ' :: cs) ts b rest :=
  h.gap rfl

theorem lexeme {a : Bool} {c : Char} {cs rest : List Char} {t : Token} {w : Nat}
    (hgap : isGap c = false) (hscan : ∀ p, Lexeme.scan a p c cs = .ok ⟨t, w⟩) (hwidth : 0 < w)
    (hrest : (c :: cs).drop w = rest) : Scans a (c :: cs) [t] t.endsOperand rest := by
  intro p
  have hnext := Cursor.next?_of_scan hgap (hscan p) hwidth
  rw [hrest] at hnext
  exact ⟨p + w, [⟨t, p⟩], rfl, by rw [Cursor.run_of_ok hnext]; rfl⟩

end Scans

theorem tokenize_of_scans {text : String} {ts : List Token} {b : Bool}
    (h : Scans false text.toList ts b []) :
    ∃ tokens, tokenize text = .ok tokens ∧ tokens.map (·.token) = ts := by
  obtain ⟨q, placed, hts, hrun⟩ := h 0
  rw [Cursor.run_of_none (show Cursor.next? ⟨q, b, []⟩ = none from rfl)] at hrun
  refine ⟨placed, Cursor.tokens_eq_ok_iff.mpr ?_, hts⟩
  rw [List.append_nil] at hrun
  exact hrun

/-! ## Keywords -/

namespace Operator

/-- The character is in no keyword. -/
def Free (d : Char) : Prop :=
  ∀ op : Operator, d.toLower ∉ op.keyword.toList

/-- The keyword starts with a character that can be the sign of a number. -/
def startsSigned (op : Operator) : Bool :=
  op.keyword.toList.head?.any fun c => (Sign.ofChar? c).isSome

theorem free_space : Free ' ' :=
  of_longestFirst (by decide)

theorem free_leftBracket : Free '[' :=
  of_longestFirst (by decide)

theorem atFront?_append (cs : List Char) {rest : List Char} (h : ∀ d ∈ rest.head?, Free d) :
    atFront? (cs ++ rest) = atFront? cs := by
  have hstarts : ∀ op : Operator, Text.startsIgnoringCase op.keyword.toList (cs ++ rest) =
      Text.startsIgnoringCase op.keyword.toList cs := by
    intro op
    apply Text.startsIgnoringCase_append
    rw [op.map_toLower_keyword]
    exact fun d hd => h d hd op
  simp only [atFront?, hstarts]

theorem atFront?_keyword (op : Operator) : atFront? op.keyword.toList = some op := by
  revert op
  exact of_longestFirst (by decide)

end Operator

/-! ## Single tokens -/

namespace Lexeme

/-- A keyword or a letter may start with this character. -/
def startsWord (c : Char) : Bool :=
  !(['[', ']', '=', '#', '(', '<', ';', ' ', '\t', '.'].contains c || c.isDigit)

theorem isGap_of_startsWord {c : Char} (h : startsWord c = true) : isGap c = false := by
  simp only [startsWord, List.contains_cons, Bool.not_eq_true', Bool.or_eq_false_iff,
    beq_eq_false_iff_ne] at h
  simp [isGap, h]

theorem scan_eq_keywordOrLetter {a : Bool} {p : Nat} {c : Char} {cs : List Char}
    (h : startsWord c = true) (hstart : Numeral.startsAt a (c :: cs) = false) :
    scan a p c cs = keywordOrLetter p c cs := by
  simp only [startsWord, List.contains_cons, Bool.not_eq_true', Bool.or_eq_false_iff,
    beq_eq_false_iff_ne] at h
  rw [scan, hstart]
  · rfl
  all_goals simp_all

theorem startsUnsigned_of_startsWord {c : Char} {cs : List Char} (h : startsWord c = true) :
    Numeral.startsUnsigned (c :: cs) = false := by
  simp only [startsWord, List.contains_cons, Bool.not_eq_true', Bool.or_eq_false_iff,
    beq_eq_false_iff_ne] at h
  have hno : ¬ Numeral.startsUnsigned (c :: cs) = true := by
    rw [Numeral.startsUnsigned_cons]
    simp [h]
  simpa using hno

theorem scan_of_startsWord {a : Bool} {p : Nat} {c : Char} {cs : List Char}
    (h : startsWord c = true) (hsign : (Sign.ofChar? c).isSome = true → a = true) :
    scan a p c cs = keywordOrLetter p c cs := by
  apply scan_eq_keywordOrLetter h
  rw [Numeral.startsAt]
  split
  · rename_i hs
    rw [hsign hs]
    rfl
  · exact startsUnsigned_of_startsWord h

theorem isGap_of_letter {c : Char} (hc : c ∈ 'N' :: wordLetters) : isGap c = false := by
  have hletters : ('N' :: wordLetters).all startsWord = true := by decide
  exact isGap_of_startsWord (List.all_eq_true.mp hletters c hc)

/-- At a letter the scanner finds the longest keyword, or else the letter. -/
theorem scan_of_letter {c : Char} (hc : c ∈ 'N' :: wordLetters) (a : Bool) (p : Nat) (cs : List Char) :
    scan a p c cs =
      match Operator.atFront? (c :: cs) with
      | some op => .ok ⟨.operator op, op.keyword.length⟩
      | none => .ok ⟨.letter c, 1⟩ := by
  have hletters : ('N' :: wordLetters).all fun c =>
      startsWord c && (Sign.ofChar? c).isNone && c.toUpper == c && (c = 'N' || isWordLetter c) := by
    decide
  have hthis := List.all_eq_true.mp hletters c hc
  simp only [Bool.and_eq_true, Option.isNone_iff_eq_none, beq_iff_eq] at hthis
  obtain ⟨⟨⟨hword, hsign⟩, hupper⟩, hletter⟩ := hthis
  rw [scan_of_startsWord hword (by simp [hsign]), keywordOrLetter, hupper]
  cases Operator.atFront? (c :: cs) with
  | some op => rfl
  | none => exact if_pos (by simpa using hletter)

theorem startsWord_keyword (op : Operator) : op.keyword.toList.head?.all startsWord = true := by
  revert op
  exact Operator.of_longestFirst (by decide)

theorem isGap_of_startsAt {a : Bool} {c : Char} {cs : List Char}
    (h : Numeral.startsAt a (c :: cs) = true) : isGap c = false := by
  cases hgap : isGap c with
  | false => rfl
  | true =>
      rcases isGap_iff.mp hgap with rfl | rfl <;>
        simp [Numeral.startsAt, Sign.ofChar?, Numeral.startsUnsigned_cons] at h

theorem scan_of_startsAt {a : Bool} {p : Nat} {c : Char} {cs : List Char}
    (h : Numeral.startsAt a (c :: cs) = true) :
    scan a p c cs = .ok (numeral (Numeral.scan (c :: cs))) := by
  rw [scan, if_pos h, literal_eq h]
  all_goals
    rintro rfl
    simp [Numeral.startsAt, Sign.ofChar?, Numeral.startsUnsigned_cons] at h

theorem scan_name {text : String} (hne : text ≠ "")
    (hall : ∀ c ∈ text.toList, ParameterIndex.isNameChar c = true) (a : Bool) (p : Nat)
    (rest : List Char) :
    scan a p '<' (text.toList ++ '>' :: rest) = .ok ⟨.name text, text.toList.length + 2⟩ := by
  have htake : (text.toList ++ '>' :: rest).takeWhile ParameterIndex.isNameChar = text.toList :=
    Text.takeWhile_append_of_stops hall (Text.stops_cons.mpr rfl)
  have hcs : text.toList.isEmpty = false := by simpa using hne
  rw [scan, name, htake, List.drop_left, String.ofList_toList]
  simp [hcs]

theorem scan_comment {text : String} (hl : '(' ∉ text.toList) (hr : ')' ∉ text.toList) (a : Bool)
    (p : Nat) (rest : List Char) :
    scan a p '(' (text.toList ++ ')' :: rest) = .ok ⟨.comment text, text.toList.length + 2⟩ := by
  have hall : ∀ c ∈ text.toList, isCommentChar c = true := by
    intro c hc
    have h1 : c ≠ '(' := by rintro rfl; exact hl hc
    have h2 : c ≠ ')' := by rintro rfl; exact hr hc
    simp [isCommentChar, h1, h2]
  have htake : (text.toList ++ ')' :: rest).takeWhile isCommentChar = text.toList :=
    Text.takeWhile_append_of_stops hall (Text.stops_cons.mpr rfl)
  simp only [scan, comment, htake, List.drop_left, String.ofList_toList]

end Lexeme

namespace Scans

theorem leftBracket (a : Bool) (rest : List Char) : Scans a ('[' :: rest) [.leftBracket] false rest :=
  lexeme rfl (fun _ => rfl) Nat.one_pos rfl

theorem rightBracket (a : Bool) (rest : List Char) : Scans a (']' :: rest) [.rightBracket] true rest :=
  lexeme rfl (fun _ => rfl) Nat.one_pos rfl

theorem equals (a : Bool) (rest : List Char) : Scans a ('=' :: rest) [.equals] false rest :=
  lexeme rfl (fun _ => rfl) Nat.one_pos rfl

theorem hash (a : Bool) (rest : List Char) : Scans a ('#' :: rest) [.hash] false rest :=
  lexeme rfl (fun _ => rfl) Nat.one_pos rfl

theorem name {text : String} (hne : text ≠ "")
    (hall : ∀ c ∈ text.toList, ParameterIndex.isNameChar c = true) (a : Bool) (rest : List Char) :
    Scans a ('<' :: (text.toList ++ '>' :: rest)) [.name text] true rest :=
  lexeme rfl (fun p => Lexeme.scan_name hne hall a p rest) (Nat.succ_pos _) (by simp)

theorem comment {text : String} (hl : '(' ∉ text.toList) (hr : ')' ∉ text.toList) (a : Bool)
    (rest : List Char) : Scans a ('(' :: (text.toList ++ ')' :: rest)) [.comment text] false rest :=
  lexeme rfl (fun p => Lexeme.scan_comment hl hr a p rest) (Nat.succ_pos _) (by simp)

theorem lineComment {text : String} (h : Text.Trimmed Text.isBlank text.toList) (a : Bool) :
    Scans a (';' :: ' ' :: text.toList) [.lineComment text] false [] := by
  have htrim : Text.trim (' ' :: text.toList) = text.toList := Text.trim_of_trimmed h
  have hscan : ∀ p, Lexeme.scan a p ';' (' ' :: text.toList) =
      .ok ⟨.lineComment text, (' ' :: text.toList).length + 1⟩ := by
    intro p
    rw [Lexeme.scan, Lexeme.lineComment, htrim, String.ofList_toList]
  exact lexeme rfl hscan (Nat.succ_pos _) (by simp)

theorem numeral {n : Numeral} (h : n.WellFormed) {rest : List Char} (hstop : n.Stops rest) :
    Scans false (n.spelling ++ rest) [.number n.number n.classify] true rest := by
  have hstart := Numeral.startsAt_spelling h rest
  have hread := Numeral.scan_spelling h hstop
  have hrest : (n.spelling ++ rest).drop n.spelling.length = rest := List.drop_left
  have hwidth := List.length_pos_iff.mpr (Numeral.spelling_ne_nil h)
  generalize n.spelling ++ rest = cs at hstart hread hrest
  cases cs with
  | nil => cases hstart
  | cons c cs =>
      have hscan : ∀ p, Lexeme.scan false p c cs = .ok ⟨.number n.number n.classify, n.spelling.length⟩ := by
        intro p
        rw [Lexeme.scan_of_startsAt hstart, hread]
        rfl
      exact lexeme (Lexeme.isGap_of_startsAt hstart) hscan hwidth hrest

theorem operator {a : Bool} {op : Operator} {rest : List Char} (ha : op.startsSigned = true → a = true)
    (hrest : ∀ d ∈ rest.head?, Operator.Free d) :
    Scans a (op.keyword.toList ++ rest) [.operator op] false rest := by
  have hword := Lexeme.startsWord_keyword op
  have hfront := Operator.atFront?_append op.keyword.toList hrest
  have hdrop : (op.keyword.toList ++ rest).drop op.keyword.length = rest := by
    rw [← String.length_toList]
    exact List.drop_left
  rw [Operator.atFront?_keyword] at hfront
  cases hkey : op.keyword.toList with
  | nil =>
      have hpos := op.keyword_length_pos
      rw [← String.length_toList, hkey] at hpos
      cases hpos
  | cons c cs =>
      rw [hkey] at hword hfront hdrop
      have hsign : (Sign.ofChar? c).isSome = true → a = true := by
        simpa [Operator.startsSigned, hkey] using ha
      have hscan : ∀ p, Lexeme.scan a p c (cs ++ rest) = .ok ⟨.operator op, op.keyword.length⟩ := by
        intro p
        rw [Lexeme.scan_of_startsWord hword hsign, Lexeme.keywordOrLetter, ← List.cons_append, hfront]
      exact lexeme (Lexeme.isGap_of_startsWord hword) hscan op.keyword_length_pos hdrop

theorem unary (op : UnaryOperator) (a : Bool) (rest : List Char) :
    Scans a (op.keyword.toList ++ '[' :: rest) [.operator (.unary op)] false ('[' :: rest) := by
  have hsign : (Operator.unary op).startsSigned = false := by
    cases op <;> rfl
  refine @operator a (.unary op) _ (fun hs => ?_) ?_
  · rw [hsign] at hs
    cases hs
  · rintro _ ⟨⟩
    exact Operator.free_leftBracket

theorem binary (op : BinaryOperator) (rest : List Char) :
    Scans true (op.keyword.toList ++ ' ' :: rest) [.operator (.binary op)] false (' ' :: rest) := by
  refine @operator true (.binary op) _ (fun _ => rfl) ?_
  rintro _ ⟨⟩
  exact Operator.free_space

theorem letter {c : Char} {cs : List Char} (hc : c ∈ 'N' :: wordLetters)
    (h : Operator.atFront? (c :: cs) = none) (a : Bool) : Scans a (c :: cs) [.letter c] false cs := by
  have hscan : ∀ p, Lexeme.scan a p c cs = .ok ⟨.letter c, 1⟩ := by
    intro p
    rw [Lexeme.scan_of_letter hc, h]
  exact lexeme (Lexeme.isGap_of_letter hc) hscan Nat.one_pos rfl

end Scans

end GCode
