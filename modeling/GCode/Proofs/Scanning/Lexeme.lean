import GCode.Token.Scan
import GCode.Proofs.Scanning.Literal

/-!
# What a lexeme is

A token is spelled by the characters of its lexeme, and a lexeme is as long as it can be. Both are said
here without the scanner, and hold of every lexeme that it finds.
-/

namespace GCode

/-! ## Spelling -/

namespace Token

inductive Spelled : Token → List Char → Prop where
  | letter {c : Char} : c.toUpper = 'N' ∨ c.toUpper ∈ wordLetters → Spelled (.letter c.toUpper) [c]
  | number {n : Numeral} : n.WellFormed → Spelled (.number n.number n.classify) n.spelling
  | operator {op : Operator} {cs : List Char} : cs.map Char.toLower = op.keyword.toList →
      Spelled (.operator op) cs
  | leftBracket : Spelled .leftBracket ['[']
  | rightBracket : Spelled .rightBracket [']']
  | equals : Spelled .equals ['=']
  | hash : Spelled .hash ['#']
  | name {text : String} : text ≠ "" → (∀ c ∈ text.toList, ParameterIndex.isNameChar c = true) →
      Spelled (.name text) ('<' :: (text.toList ++ ['>']))
  | comment {text : String} : '(' ∉ text.toList → ')' ∉ text.toList →
      Spelled (.comment text) ('(' :: (text.toList ++ [')']))
  | lineComment {text : String} {cs : List Char} : text.toList = Text.trim cs →
      Spelled (.lineComment text) (';' :: cs)

/-- The first `width` characters of the text are all that the token can take. -/
def Maximal (text : List Char) (width : Nat) : Token → Prop
  | letter _ => ∀ op : Operator, Text.startsIgnoringCase op.keyword.toList text = false
  | number .. => ∀ c, text[width]? = some c →
      c.isDigit = false ∧ (c = '.' → '.' ∈ text.take width)
  | operator _ => ∀ op : Operator, Text.startsIgnoringCase op.keyword.toList text = true →
      op.keyword.length ≤ width
  | lineComment _ => width = text.length
  | _ => True

def IsNumber : Token → Prop
  | number .. => True
  | _ => False

end Token

/-- A lexeme at the front of a text. A sign in front of a number belongs to it unless an operand ends
before the sign. -/
structure Lexeme.Fits (afterOperand : Bool) (text : List Char) (lexeme : Lexeme) : Prop where
  width_pos : 0 < lexeme.width
  width_le : lexeme.width ≤ text.length
  spelled : lexeme.token.Spelled (text.take lexeme.width)
  maximal : lexeme.token.Maximal text lexeme.width
  sign : ∀ s rest, text = s :: rest → (Sign.ofChar? s).isSome = true →
    Numeral.startsUnsigned rest = true → (lexeme.token.IsNumber ↔ afterOperand = false)

/-! ## Keywords -/

/-- What is checked of every operator in the list holds of every operator. -/
theorem Operator.of_longestFirst {P : Operator → Prop} (h : ∀ op ∈ longestFirst, P op)
    (op : Operator) : P op :=
  h op (mem_longestFirst op)

theorem Operator.map_toLower_keyword (op : Operator) :
    op.keyword.toList.map Char.toLower = op.keyword.toList := by
  revert op
  exact of_longestFirst (by decide)

theorem Operator.keyword_length_pos (op : Operator) : 0 < op.keyword.length := by
  revert op
  exact of_longestFirst (by decide)

theorem Operator.starts_iff {op : Operator} {cs : List Char} :
    Text.startsIgnoringCase op.keyword.toList cs = true ↔
      op.keyword.length ≤ cs.length ∧
        (cs.take op.keyword.length).map Char.toLower = op.keyword.toList := by
  rw [Text.startsIgnoringCase_iff, op.map_toLower_keyword, List.prefix_iff_eq_take, String.length_toList,
    List.map_take]
  constructor
  · intro h
    have hlen := congrArg List.length h
    simp only [String.length_toList, List.length_take, List.length_map] at hlen
    exact ⟨by omega, h.symm⟩
  · exact fun h => h.2.symm

theorem Operator.atFront?_eq_some {op : Operator} {cs : List Char} (h : atFront? cs = some op) :
    Text.startsIgnoringCase op.keyword.toList cs = true ∧
      ∀ op' : Operator, Text.startsIgnoringCase op'.keyword.toList cs = true →
        op'.keyword.length ≤ op.keyword.length := by
  obtain ⟨hop, before, after, hall, hbefore⟩ := List.find?_eq_some_iff_append.mp h
  refine ⟨hop, fun op' hop' => ?_⟩
  have hsorted := longestFirst_sorted
  have hmem := mem_longestFirst op'
  rw [hall] at hsorted hmem
  rcases List.mem_append.mp hmem with hb | ha
  · have := hbefore op' hb
    simp [hop'] at this
  · rcases List.mem_cons.mp ha with rfl | ha
    · exact Nat.le_refl _
    · exact List.rel_of_pairwise_cons (List.pairwise_append.mp hsorted).2.1 ha

theorem Operator.atFront?_eq_none {cs : List Char} (h : atFront? cs = none) (op : Operator) :
    Text.startsIgnoringCase op.keyword.toList cs = false := by
  have := List.find?_eq_none.mp h op (mem_longestFirst op)
  simpa using this

/-! ## The scanners -/

theorem Sign.isSome_ofChar?_iff {c : Char} : (ofChar? c).isSome = true ↔ c = '+' ∨ c = '-' := by
  by_cases hp : c = '+'
  · simp [ofChar?, hp]
  · by_cases hm : c = '-' <;> simp [ofChar?, hp, hm]

namespace Lexeme

/-- A lexeme of one fixed character that is no sign. -/
theorem fits_single {a : Bool} {c : Char} {cs : List Char} {token : Token}
    (hspell : token.Spelled [c]) (hmax : token.Maximal (c :: cs) 1) (hc : Sign.ofChar? c = none) :
    Fits a (c :: cs) ⟨token, 1⟩ where
  width_pos := Nat.one_pos
  width_le := by simp
  spelled := by simpa using hspell
  maximal := hmax
  sign := by
    rintro s rest ⟨⟩ hs
    rw [hc] at hs; cases hs

/-- A lexeme that is enclosed in two characters. -/
theorem fits_enclosed {a : Bool} {c d : Char} {cs body rest : List Char} {token : Token}
    (hspell : token.Spelled (c :: (body ++ [d]))) (hcs : cs = body ++ d :: rest)
    (hmax : token.Maximal (c :: cs) (body.length + 2)) (hc : Sign.ofChar? c = none) :
    Fits a (c :: cs) ⟨token, body.length + 2⟩ where
  width_pos := Nat.succ_pos _
  width_le := by simp [hcs]
  spelled := by
    have htake : (c :: cs).take (body.length + 2) = c :: (body ++ [d]) := by
      simp [hcs, List.take_append, List.take_of_length_le]
    rw [htake]
    exact hspell
  maximal := hmax
  sign := by
    rintro s rest' ⟨⟩ hs
    rw [hc] at hs; cases hs

theorem comment_fits {a : Bool} {p : Nat} {cs : List Char} {lexeme : Lexeme}
    (h : comment p cs = .ok lexeme) : Fits a ('(' :: cs) lexeme := by
  have hcut := List.takeWhile_append_dropWhile (p := isCommentChar) (l := cs)
  rw [comment, Text.drop_length_takeWhile] at h
  split at h
  · rename_i rest heq
    cases h
    have hall : ∀ c ∈ cs.takeWhile isCommentChar, c ≠ '(' ∧ c ≠ ')' := by
      intro c hc
      simpa [isCommentChar] using Text.all_of_mem_takeWhile c hc
    have hspell := @Token.Spelled.comment (String.ofList (cs.takeWhile isCommentChar))
      (by rw [String.toList_ofList]; exact fun hm => (hall _ hm).1 rfl)
      (by rw [String.toList_ofList]; exact fun hm => (hall _ hm).2 rfl)
    rw [String.toList_ofList] at hspell
    exact fits_enclosed hspell (by rw [← heq, hcut]) trivial rfl
  · cases h
  · cases h

theorem name_fits {a : Bool} {p : Nat} {cs : List Char} {lexeme : Lexeme}
    (h : name p cs = .ok lexeme) : Fits a ('<' :: cs) lexeme := by
  have hcut := List.takeWhile_append_dropWhile (p := ParameterIndex.isNameChar) (l := cs)
  rw [name, Text.drop_length_takeWhile] at h
  split at h
  · rename_i c rest heq
    split at h
    · rename_i hc
      simp only [Bool.and_eq_true, decide_eq_true_eq, Bool.not_eq_true', List.isEmpty_eq_false_iff] at hc
      obtain ⟨rfl, hne⟩ := hc
      cases h
      have hspell := @Token.Spelled.name (String.ofList (cs.takeWhile ParameterIndex.isNameChar))
        (by simpa using hne) (by rw [String.toList_ofList]; exact Text.all_of_mem_takeWhile)
      rw [String.toList_ofList] at hspell
      exact fits_enclosed hspell (by rw [← heq, hcut]) trivial rfl
    · cases h
  · cases h

theorem lineComment_fits {a : Bool} {cs : List Char} : Fits a (';' :: cs) (lineComment cs) where
  width_pos := Nat.succ_pos _
  width_le := by simp [lineComment]
  spelled := by
    simp only [lineComment, List.take_succ_cons, List.take_length]
    exact .lineComment String.toList_ofList
  maximal := by simp [lineComment, Token.Maximal]
  sign := by
    rintro s rest ⟨⟩ hs
    cases hs

theorem literal_fits {a : Bool} {cs : List Char} (h : Numeral.startsAt a cs = true) :
    Fits a cs (literal cs) := by
  rw [literal_eq h]
  obtain ⟨hwf, rest, hcs, hstop⟩ := Numeral.scan_split h
  generalize Numeral.scan cs = n at *
  subst hcs
  have htake : (n.spelling ++ rest).take n.spelling.length = n.spelling := List.take_left
  refine ⟨?_, ?_, ?_, ?_, ?_⟩
  · exact List.length_pos_iff.mpr (Numeral.spelling_ne_nil hwf)
  · simp [numeral]
  · simp only [numeral, htake]
    exact .number hwf
  · intro c hc
    simp only [numeral] at hc ⊢
    rw [List.getElem?_append_right (Nat.le_refl _), Nat.sub_self, ← List.head?_eq_getElem?] at hc
    refine ⟨hstop.digit c hc, ?_⟩
    rintro rfl
    rw [htake]
    cases hf : n.fraction with
    | none => simpa using hstop.point hf '.' hc
    | some ds => simp [Numeral.spelling, hf]
  · rintro s cs' heq hs hstart
    rw [heq] at h
    simp only [Numeral.startsAt, hs, ↓reduceIte, Bool.and_eq_true, Bool.not_eq_true'] at h
    simp [numeral, Token.IsNumber, h.1]

theorem keywordOrLetter_fits {a : Bool} {p : Nat} {c : Char} {cs : List Char} {lexeme : Lexeme}
    (hn : Numeral.startsAt a (c :: cs) = false) (h : keywordOrLetter p c cs = .ok lexeme) :
    Fits a (c :: cs) lexeme := by
  -- a sign in front of a number gets here only behind an operand
  have hsign : ¬ lexeme.token.IsNumber → ∀ s rest, c :: cs = s :: rest → (Sign.ofChar? s).isSome = true →
      Numeral.startsUnsigned rest = true → (lexeme.token.IsNumber ↔ a = false) := by
    rintro hno s rest ⟨⟩ hs hstart
    simp only [Numeral.startsAt, hs, ↓reduceIte, hstart, Bool.and_true] at hn
    constructor
    · exact fun h => absurd h hno
    · rintro rfl; cases hn
  rw [keywordOrLetter] at h
  split at h
  · rename_i op hop
    cases h
    obtain ⟨hstart, hlong⟩ := Operator.atFront?_eq_some hop
    obtain ⟨hlen, htake⟩ := Operator.starts_iff.mp hstart
    exact ⟨op.keyword_length_pos, hlen, .operator htake, hlong, hsign id⟩
  · rename_i hop
    split at h
    · rename_i hc
      cases h
      have hspell : (Token.letter c.toUpper).Spelled [c] := by
        simp only [Bool.or_eq_true, decide_eq_true_eq, isWordLetter, List.contains_eq_mem] at hc
        exact .letter hc
      exact ⟨Nat.one_pos, by simp, by simpa using hspell, Operator.atFront?_eq_none hop, hsign id⟩
    · cases h

theorem scan_fits {a : Bool} {p : Nat} {c : Char} {cs : List Char} {lexeme : Lexeme}
    (h : scan a p c cs = .ok lexeme) : Fits a (c :: cs) lexeme := by
  revert h
  fun_cases scan a p c cs with
  | case1 => rintro ⟨⟩; exact fits_single .leftBracket trivial rfl
  | case2 => rintro ⟨⟩; exact fits_single .rightBracket trivial rfl
  | case3 => rintro ⟨⟩; exact fits_single .equals trivial rfl
  | case4 => rintro ⟨⟩; exact fits_single .hash trivial rfl
  | case5 => exact comment_fits
  | case6 => exact name_fits
  | case7 => rintro ⟨⟩; exact lineComment_fits
  | case8 _ hn =>
      rw [if_pos hn]
      rintro ⟨⟩
      exact literal_fits hn
  | case9 _ hn =>
      rw [if_neg hn]
      exact keywordOrLetter_fits (by simpa using hn)

end Lexeme

end GCode
