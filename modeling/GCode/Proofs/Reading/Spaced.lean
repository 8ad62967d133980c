import GCode.Proofs.Reading.Localised
import GCode.Proofs.Scanning.Spacing

/-!
# Reading a text with more blanks in it

Blanks that cut no token in two change neither the tokens of a text nor what is read from it. Only the
places behind them move.
-/

namespace GCode

open Reader

/-! ## Line ends -/

/-- A text with tokens ends with a line end only inside a comment that runs to the end. -/
theorem Cut.isLineEnd_getLast {text : List Char} {ps : List Piece} (h : Cut text ps)
    (hline : ∀ p ∈ ps, ∀ comment, p.token ≠ .lineComment comment) :
    ∀ c ∈ text.getLast?, Text.isLineEnd c = false := by
  intro c hc
  by_cases hgap : ∀ p ∈ ps, text.length - 1 < p.position ∨ p.stop ≤ text.length - 1
  · rw [List.getLast?_eq_getElem?] at hc
    rcases h.gaps _ c hc hgap with rfl | rfl <;> rfl
  · push Not at hgap
    obtain ⟨p, hp, hle, hlt⟩ := hgap
    have hinside := h.inside p hp
    have hspelled := h.spelled p hp
    simp only [Piece.stop] at hinside hlt
    rw [List.take_of_length_le (by rw [List.length_drop]; omega)] at hspelled
    have hlast : (text.drop p.position).getLast? = text.getLast? := by
      rw [List.getLast?_drop, if_neg (by omega)]
    have hblank := hspelled.isBlank_getLast (hline p hp) (hlast ▸ hc)
    cases hend : Text.isLineEnd c with
    | false => rfl
    | true => exact (Text.isBlank_of_isLineEnd hend).symm.trans hblank

section

variable {text : String} {tokens : List PlacedToken}

theorem tokenize_lineText (h : tokenize text = .ok tokens) : tokenize (lineText text) = .ok tokens := by
  obtain ⟨ps, rfl, hcuts⟩ := exists_cuts_of_tokenize h
  obtain ⟨back, hback, hends⟩ := Text.exists_of_dropEndWhile Text.isLineEnd text.toList
  rw [← hback] at hcuts
  obtain ⟨ps', hps', hcuts'⟩ :=
    hcuts.drop_blanks (Nat.zero_le _) fun c hc => Text.isBlank_of_isLineEnd (hends c hc)
  rw [← hps']
  refine Cuts.tokenize ?_
  rw [lineText, String.toList_ofList]
  exact hcuts'

theorem lineText_of_tokenize (h : tokenize text = .ok tokens)
    (hline : ∀ t ∈ tokens, ∀ comment, t.token ≠ .lineComment comment) : lineText text = text := by
  obtain ⟨ps, rfl, hcut⟩ := exists_cut_of_tokenize h
  exact lineText_of_back (hcut.isLineEnd_getLast (List.forall_mem_map.mp hline))

end

namespace Reader.State

variable {s last : State} {tokens : List PlacedToken}

theorem read_of_run {α : Type} {result? : State → Option α} {length : Nat} (h : s.run tokens = .ok last) :
    s.read result? length tokens =
      match result? last with
      | some result => .ok result
      | none => .error (.unexpectedEnd length last.expected) := by
  rw [read, h]
  rfl

/-- Behind a comment that runs to the end no end is missed. -/
theorem read_line_of_lineComment {comment : String} (h : .lineComment comment ∈ tokens.map (·.token))
    (m n : Nat) : s.read line? m tokens = s.read line? n tokens := by
  cases hrun : s.run tokens with
  | error e => rw [read, read, hrun]; rfl
  | ok last =>
      obtain ⟨line, hline⟩ := State.line?_of_lineComment (run_eq_ok_iff.mp hrun) h
      rw [read_of_run hrun, read_of_run hrun, hline]

end Reader.State

/-- Line ends behind a text that has tokens do not matter. -/
theorem readLine_of_tokenize {text : String} {tokens : List PlacedToken} (h : tokenize text = .ok tokens) :
    readLine text = State.start.read State.line? text.toList.length tokens := by
  rw [readLine_eq, tokenize_lineText h]
  change State.start.read State.line? (lineText text).toList.length tokens = _
  by_cases hline : ∀ t ∈ tokens, ∀ comment, t.token ≠ .lineComment comment
  · rw [lineText_of_tokenize h hline]
  · push Not at hline
    obtain ⟨t, ht, comment, hcomment⟩ := hline
    exact State.read_line_of_lineComment (List.mem_map.mpr ⟨t, ht, hcomment⟩) _ _

/-! ## Moving what stands behind a place -/

def LexicalError.shift (n k : Nat) : LexicalError → LexicalError
  | unexpectedCharacter p c => unexpectedCharacter (Text.shifted n k p) c
  | nestedComment p => nestedComment (Text.shifted n k p)
  | unterminatedComment p => unterminatedComment (Text.shifted n k p)
  | unterminatedName p => unterminatedName (Text.shifted n k p)

/-- The same error in a text with `k` more characters at the place `n`. -/
def ReadError.shift (n k : Nat) : ReadError → ReadError
  | lexical e => lexical (e.shift n k)
  | unexpectedToken found expected => unexpectedToken (found.shift n k) expected
  | unexpectedEnd p expected => unexpectedEnd (Text.shifted n k p) expected
  | field e => field e

namespace Reader.State

theorem run_shift (n k : Nat) (s : State) (tokens : List PlacedToken) :
    s.run (tokens.map (.shift n k)) = (s.run tokens).mapError (.shift n k) := by
  induction tokens generalizing s with
  | nil => rfl
  | cons t tokens ih =>
      rw [List.map_cons, run, run, show (t.shift n k).token = t.token from rfl]
      cases s.step t.token with
      | ok next => exact ih next
      | error refusal => cases refusal <;> rfl

theorem read_shift {α : Type} (result? : State → Option α) (n k length : Nat) (s : State)
    (tokens : List PlacedToken) :
    s.read result? (Text.shifted n k length) (tokens.map (.shift n k)) =
      (s.read result? length tokens).mapError (.shift n k) := by
  have hrun' := run_shift n k s tokens
  cases hrun : s.run tokens with
  | error e => rw [read, read, hrun', hrun]; rfl
  | ok last =>
      rw [hrun] at hrun'
      rw [read_of_run hrun, read_of_run hrun']
      cases result? last <;> rfl

end Reader.State

/-! ## Reading -/

/-- Where a token starts, no other token is cut. -/
theorem Cut.apart {text : List Char} {ps : List Piece} (h : Cut text ps) {p : Piece} (hp : p ∈ ps) :
    ∀ q ∈ ps, p.position ≤ q.position ∨ q.stop ≤ p.position := by
  obtain ⟨before, after, rfl⟩ := List.append_of_mem hp
  have hdisjoint := h.disjoint
  rw [List.pairwise_append, List.pairwise_cons] at hdisjoint
  obtain ⟨_, ⟨hbehind, _⟩, hbefore⟩ := hdisjoint
  intro q hq
  rcases List.mem_append.mp hq with hq | hq
  · exact .inr (hbefore q hq p List.mem_cons_self)
  · rcases List.mem_cons.mp hq with rfl | hq
    · exact .inl (Nat.le_refl _)
    · exact .inl (Nat.le_trans (Nat.le_add_right _ _) (hbehind q hq))

theorem Cut.tokenize_insert {a b : String} {ps : List Piece} (h : Cut (a ++ b).toList ps)
    (hout : ∀ p ∈ ps, a.toList.length ≤ p.position ∨ p.stop ≤ a.toList.length) {blanks : String}
    (hblanks : ∀ c ∈ blanks.toList, c = ' ' ∨ c = '\t') :
    tokenize (a ++ blanks ++ b) =
      .ok ((ps.map Piece.placed).map (.shift a.toList.length blanks.toList.length)) := by
  have hn : a.toList.length ≤ (a ++ b).toList.length := by simp
  have htext : (a ++ blanks ++ b).toList = Text.insert (a ++ b).toList a.toList.length blanks.toList := by
    simp [Text.insert]
  obtain ⟨ps', hps', hcuts⟩ :=
    h.cuts.insert hn (Nat.zero_le _) hout fun c hc => isGap_iff.mpr (hblanks c hc)
  rw [← htext] at hcuts
  rw [hcuts.tokenize, hps']

/-- Spaces and tabs can stand wherever no token is cut in two. The tokens stay, and what is read from the
text stays too. -/
theorem tokenize_insert_blanks {a b : String} {tokens : List PlacedToken}
    (h : tokenize (a ++ b) = .ok tokens) :
    ∃ ps : List Piece, ps.map Piece.placed = tokens ∧ Cut (a ++ b).toList ps ∧
      ((∀ p ∈ ps, a.toList.length ≤ p.position ∨ p.stop ≤ a.toList.length) →
        ∀ blanks : String, (∀ c ∈ blanks.toList, c = ' ' ∨ c = '\t') →
          tokenize (a ++ blanks ++ b) =
            .ok (tokens.map (.shift a.toList.length blanks.toList.length)) ∧
          readLine (a ++ blanks ++ b) =
            (readLine (a ++ b)).mapError (.shift a.toList.length blanks.toList.length)) := by
  obtain ⟨ps, rfl, hcut⟩ := exists_cut_of_tokenize h
  refine ⟨ps, rfl, hcut, fun hout blanks hblanks => ?_⟩
  have htokens := hcut.tokenize_insert hout hblanks
  refine ⟨htokens, ?_⟩
  have hlength : (a ++ blanks ++ b).toList.length =
      Text.shifted a.toList.length blanks.toList.length (a ++ b).toList.length := by
    rw [Text.shifted_of_le (by simp)]
    simp only [String.toList_append, List.length_append]
    omega
  rw [readLine_of_tokenize htokens, readLine_of_tokenize h, hlength, State.read_shift]

/-- Between two points the first number ends. The reader refuses the second, where it has moved to. -/
theorem tokenize_insert_blanks_points :
    ∃ tokens, tokenize ("x1.5" ++ ".5-#<a>; end \r\n") = .ok tokens ∧
      tokenize ("x1.5" ++ " \t" ++ ".5-#<a>; end \r\n") = .ok (tokens.map (.shift 4 2)) ∧
      readLine ("x1.5" ++ " \t" ++ ".5-#<a>; end \r\n") =
        (readLine ("x1.5" ++ ".5-#<a>; end \r\n")).mapError (.shift 4 2) ∧
      ∃ found expected, readLine ("x1.5" ++ ".5-#<a>; end \r\n") = .error (.unexpectedToken found expected) ∧
        found.position = 4 := by
  have htext : "x1.5" ++ ".5-#<a>; end \r\n" = "x1.5.5-#<a>; end \r\n" := rfl
  have h : tokenize "x1.5.5-#<a>; end \r\n" =
      .ok [⟨.letter 'X', 0⟩, ⟨.number (.decimal (Binary64.nearest false 15 10)) .positiveReal, 1⟩,
        ⟨.number (.decimal (Binary64.nearest false 5 10)) .positiveReal, 4⟩, ⟨.operator (.binary .subtract), 6⟩,
        ⟨.hash, 7⟩, ⟨.name "a", 8⟩, ⟨.lineComment "end", 11⟩] :=
    Cursor.tokens_eq_ok_iff.mpr (by decide +kernel)
  have hread : readLine "x1.5.5-#<a>; end \r\n" =
      .error (.unexpectedToken ⟨.number (.decimal (Binary64.nearest false 5 10)) .positiveReal, 4⟩ .segment) := by
    decide +kernel
  rw [← htext] at h hread
  obtain ⟨ps, hps, hcut, hblanks⟩ := tokenize_insert_blanks h
  have hmem : ⟨.number (.decimal (Binary64.nearest false 5 10)) .positiveReal, 4⟩ ∈ ps.map Piece.placed := by
    simp [hps]
  obtain ⟨p, hp, hplaced⟩ := List.mem_map.mp hmem
  have hposition : p.position = 4 := congrArg PlacedToken.position hplaced
  have hout := hcut.apart hp
  rw [hposition] at hout
  obtain ⟨htokens, hspaced⟩ := hblanks hout " \t" (by simp)
  exact ⟨_, h, htokens, hspaced, _, _, hread, rfl⟩

end GCode
