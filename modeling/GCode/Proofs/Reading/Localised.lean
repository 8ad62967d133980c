import GCode.Proofs.Grammar.Refusals
import GCode.Proofs.Printing.Line
import GCode.Proofs.Scanning.Failure
import GCode.Proofs.Scanning.Fitting

/-!
# Where a line goes wrong

The error of a text that is no line names the first place from which no line can be reached. What stands
before it can be completed to a line, in a text of its own. No error of evaluation is among the errors.
-/

namespace GCode

open Reader

/-! ## Closing texts -/

namespace Scans

theorem zero_space (a : Bool) (rest : List Char) : Scans a ('0' :: ' ' :: rest) [zero] true (' ' :: rest) := by
  have hscan : ∀ p, Lexeme.scan a p '0' (' ' :: rest) = .ok ⟨zero, 1⟩ := by
    intro p
    cases a <;> rfl
  exact lexeme rfl hscan Nat.one_pos rfl

theorem plus_space (a : Bool) (rest : List Char) :
    Scans a ('+' :: ' ' :: rest) [.operator (.binary .add)] false (' ' :: rest) := by
  cases a with
  | true => exact binary .add rest
  | false =>
      have hstart : Numeral.startsAt false ('+' :: ' ' :: rest) = false := by
        cases rest <;> rfl
      have hfront : Operator.atFront? ('+' :: ' ' :: rest) = some (.binary .add) := by
        rw [← List.singleton_append, Operator.atFront?_append]
        · decide
        · rintro d ⟨⟩
          exact Operator.free_space
      have hscan : ∀ p, Lexeme.scan false p '+' (' ' :: rest) = .ok ⟨.operator (.binary .add), 1⟩ := by
        intro p
        rw [Lexeme.scan_eq_keywordOrLetter (by decide) hstart, Lexeme.keywordOrLetter, hfront]
        rfl
      exact lexeme rfl hscan Nat.one_pos rfl

end Scans

/-- A closing token scans in front of a space, whatever stands before it. -/
theorem exists_scans_of_mem_closers {t : Token} (h : t ∈ closers) :
    ∃ cs, ∀ a rest, ∃ b, Scans a (cs ++ ' ' :: rest) [t] b (' ' :: rest) := by
  simp only [closers, List.mem_cons, List.not_mem_nil, or_false] at h
  rcases h with rfl | rfl | rfl | rfl | rfl | rfl
  · exact ⟨['0'], fun a rest => ⟨true, .zero_space a rest⟩⟩
  · exact ⟨['+'], fun a rest => ⟨false, .plus_space a rest⟩⟩
  · have hfree : ∀ rest, ∀ d ∈ (' ' :: rest).head?, Operator.Free d := by
      rintro rest d ⟨⟩
      exact Operator.free_space
    have hslash : ∀ a, (Operator.binary .divide).startsSigned = true → a = true := by
      rintro a ⟨⟩
    exact ⟨['/'], fun a rest => ⟨false, .operator (hslash a) (hfree rest)⟩⟩
  · exact ⟨['['], fun a rest => ⟨false, .leftBracket a _⟩⟩
  · exact ⟨[']'], fun a rest => ⟨true, .rightBracket a _⟩⟩
  · exact ⟨['='], fun a rest => ⟨false, .equals a _⟩⟩

theorem exists_scans_of_closers {ts : List Token} (h : ∀ t ∈ ts, t ∈ closers) :
    ∃ cs, (' ' :: cs).getLast? = some ' ' ∧ ∀ a, ∃ b, Scans a (' ' :: cs) ts b [] := by
  induction ts with
  | nil => exact ⟨[], rfl, fun a => ⟨a, (Scans.nil a []).space⟩⟩
  | cons t ts ih =>
      obtain ⟨ht, hts⟩ := List.forall_mem_cons.mp h
      obtain ⟨ds, hds⟩ := exists_scans_of_mem_closers ht
      obtain ⟨cs, hlast, hcs⟩ := ih hts
      refine ⟨ds ++ ' ' :: cs, ?_, fun a => ?_⟩
      · rw [← List.cons_append, List.getLast?_append, hlast]
        rfl
      · obtain ⟨b, hb⟩ := hds a cs
        obtain ⟨d, hd⟩ := hcs b
        exact ⟨d, (hb.append hd).space⟩

/-! ## Accepted tokens -/

/-- These are the tokens of a text that is a line. -/
def Accepted (ts : List Token) : Prop :=
  ∃ text tokens line, readLine text = .ok line ∧ tokenize (lineText text) = .ok tokens ∧
    tokens.map (·.token) = ts

theorem Accepted.steps {ts : List Token} (h : Accepted ts) :
    ∃ last line, State.start.steps ts = .ok last ∧ last.line? = some line := by
  obtain ⟨text, tokens, line, hread, htokens, rfl⟩ := h
  obtain ⟨_, htokens', hline⟩ := readLine_eq_ok_iff.mp hread
  cases htokens.symm.trans htokens'
  obtain ⟨last, hsteps, hlast⟩ := Grammar.steps_start_iff.mpr hline
  exact ⟨last, line, hsteps, hlast⟩

theorem Accepted.of_scans {cs : List Char} {ts : List Token} {b : Bool} {last : State} {line : Line}
    (h : Scans false cs ts b []) (hback : ∀ c ∈ cs.getLast?, Text.isLineEnd c = false)
    (hsteps : State.start.steps ts = .ok last) (hlast : last.line? = some line) : Accepted ts := by
  rw [← String.toList_ofList (l := cs)] at h hback
  obtain ⟨tokens, htokens, rfl⟩ := tokenize_of_scans h
  rw [← lineText_of_back hback] at htokens
  have hline := Grammar.steps_start_iff.mp ⟨last, hsteps, hlast⟩
  exact ⟨_, tokens, line, readLine_eq_ok_iff.mpr ⟨tokens, htokens, hline⟩, htokens, rfl⟩

theorem Cut.lettered {text : List Char} {ps : List Piece} (h : Cut text ps) :
    ∀ t ∈ ps.map Piece.token, t.Lettered := by
  rw [List.forall_mem_map]
  exact fun p hp => (h.spelled p hp).lettered

/-- The tokens in front of `n` start a line, if the reader takes them and none stands across `n`. -/
theorem Cuts.exists_accepted {text : List Char} {n : Nat} {before after : List Piece} {s : State}
    (h : Cuts text 0 false (before ++ after)) (hn : n ≤ text.length)
    (hbefore : ∀ p ∈ before, p.stop ≤ n ∧ ∀ comment, p.token ≠ .lineComment comment)
    (hafter : ∀ p ∈ after, n ≤ p.position)
    (hsteps : State.start.steps (before.map Piece.token) = .ok s) :
    ∃ us, Accepted (before.map Piece.token ++ us) := by
  have hlettered := h.cut.lettered
  rw [List.map_append, List.forall_mem_append] at hlettered
  have hstart : State.start.InLine := trivial
  obtain ⟨us, last, line, hus, hlast, hline⟩ := (hstart.steps hlettered.1 hsteps).completes
  obtain ⟨cs, hback, hcs⟩ := exists_scans_of_closers hus
  obtain ⟨b, hfront⟩ := h.scans_front (Nat.zero_le n) hn hbefore hafter cs
  obtain ⟨d, hclose⟩ := hcs b
  refine ⟨us, .of_scans (hfront.append hclose) ?_ ?_ hline⟩
  · rw [List.getLast?_append, hback]
    rintro _ ⟨⟩
    rfl
  · rw [State.steps_append_of_ok hsteps, hlast]

/-! ## Errors -/

/-- No line goes on behind a comment that runs to the end. -/
theorem State.line?_of_lineComment {s last : State} {text : String} {ts : List Token}
    (h : s.steps ts = .ok last) (hmem : .lineComment text ∈ ts) : ∃ line, last.line? = some line := by
  obtain ⟨before, after, rfl⟩ := List.append_of_mem hmem
  rw [State.steps_append] at h
  obtain ⟨mid, _, hrest⟩ := bind_eq_ok_iff.mp h
  obtain ⟨line, rfl, _⟩ := State.finished_of_lineComment hrest
  exact ⟨line, rfl⟩

/-- Where an error stands in the text of a line, and what can be said of the tokens there. -/
def ReadError.LocalisedIn (text : String) : ReadError → Prop
  | .lexical e => tokenize text = .error e ∧ e.position < text.toList.length ∧ e.At text.toList
  | .unexpectedToken found _ => ∃ before after, tokenize text = .ok (before ++ found :: after) ∧
    (∃ us, Accepted (before.map (·.token) ++ us)) ∧
    ∀ us, ¬ Accepted (before.map (·.token) ++ found.token :: us)
  | .unexpectedEnd position _ => position = text.toList.length ∧
    ∃ tokens, tokenize text = .ok tokens ∧ ∃ us, us ≠ [] ∧ Accepted (tokens.map (·.token) ++ us)
  | .field e => ∃ tokens, tokenize text = .ok tokens ∧ e.Of (tokens.map (·.token))

section

variable {text : String} {tokens before after : List PlacedToken} {found : PlacedToken} {last : State}

/-- The pieces of the text before and behind a token. -/
theorem exists_pieces_of_tokenize (h : tokenize text = .ok (before ++ found :: after)) :
    ∃ front p back, Cuts text.toList 0 false (front ++ p :: back) ∧
      before.map (·.token) = front.map Piece.token ∧ found.token = p.token := by
  obtain ⟨ps, hps, hcuts⟩ := exists_cuts_of_tokenize h
  obtain ⟨front, rest, rfl, rfl, hrest⟩ := List.map_eq_append_iff.mp hps
  obtain ⟨p, back, rfl, rfl, rfl⟩ := List.map_eq_cons_iff.mp hrest
  exact ⟨front, p, back, hcuts, List.map_map, rfl⟩

theorem exists_accepted_of_unexpected (h : tokenize text = .ok (before ++ found :: after))
    (hsteps : State.start.steps (before.map (·.token)) = .ok last) :
    ∃ us, Accepted (before.map (·.token) ++ us) := by
  obtain ⟨front, p, back, hcuts, hfront, -⟩ := exists_pieces_of_tokenize h
  have hinside := hcuts.cut.inside p (by simp)
  have hdisjoint := hcuts.cut.disjoint
  rw [List.pairwise_append, List.pairwise_cons] at hdisjoint
  obtain ⟨_, ⟨hbehind, _⟩, hbefore⟩ := hdisjoint
  rw [hfront] at hsteps ⊢
  apply hcuts.exists_accepted (n := p.position) (by omega) ?_ ?_ hsteps
  · intro q hq
    have hstop := hbefore q hq p List.mem_cons_self
    refine ⟨hstop, fun comment hcomment => ?_⟩
    -- a comment to the end of the line leaves no room for the token
    have hmaximal := hcuts.cut.maximal q (by simp [hq])
    rw [hcomment, Token.Maximal, List.length_drop] at hmaximal
    simp only [Piece.stop] at hstop hinside
    omega
  · rw [List.forall_mem_cons]
    refine ⟨Nat.le_refl _, fun q hq => ?_⟩
    have hle := hbehind q hq
    simp only [Piece.stop] at hle
    omega

theorem exists_accepted_of_end (h : tokenize text = .ok tokens)
    (hsteps : State.start.steps (tokens.map (·.token)) = .ok last) (hlast : last.line? = none) :
    ∃ us, us ≠ [] ∧ Accepted (tokens.map (·.token) ++ us) := by
  obtain ⟨ps, rfl, hcuts⟩ := exists_cuts_of_tokenize h
  rw [List.map_map] at hsteps ⊢
  have hnil := List.append_nil ps
  rw [← hnil] at hcuts
  have haccepted : ∃ us, Accepted (ps.map Piece.token ++ us) := by
    apply hcuts.exists_accepted (n := text.toList.length) (Nat.le_refl _) ?_ (by simp) hsteps
    intro p hp
    refine ⟨(hcuts.cut.inside p (by simp [hp])).2, fun comment hcomment => ?_⟩
    -- behind such a comment the line may end
    obtain ⟨line, hline⟩ := State.line?_of_lineComment hsteps (List.mem_map.mpr ⟨p, hp, hcomment⟩)
    rw [hlast] at hline
    cases hline
  obtain ⟨us, hus⟩ := haccepted
  refine ⟨us, ?_, hus⟩
  rintro rfl
  obtain ⟨last', line, hsteps', hline⟩ := hus.steps
  rw [List.append_nil] at hsteps'
  cases hsteps.symm.trans hsteps'
  rw [hlast] at hline
  cases hline

theorem not_accepted_of_unexpected (hsteps : State.start.steps (before.map (·.token)) = .ok last)
    (hfound : last.step found.token = .error .unexpected) (us : List Token) :
    ¬ Accepted (before.map (·.token) ++ found.token :: us) := by
  intro haccepted
  obtain ⟨final, _, hfinal, _⟩ := haccepted.steps
  rw [State.steps_append_of_ok hsteps, State.steps_cons, hfound] at hfinal
  cases hfinal

theorem fieldError_of_step {e : FieldError} (h : tokenize text = .ok (before ++ found :: after))
    (hsteps : State.start.steps (before.map (·.token)) = .ok last)
    (hfound : last.step found.token = .error (.field e)) :
    e.Of ((before ++ found :: after).map (·.token)) := by
  obtain ⟨front, p, back, hcuts, hfront, hp⟩ := exists_pieces_of_tokenize h
  have hlettered := hcuts.cut.lettered
  rw [List.map_append, List.forall_mem_append, ← hfront] at hlettered
  have hspelled := hcuts.cut.spelled p (by simp)
  rw [← hp] at hspelled
  have hstart : State.start.InLine := trivial
  have hreached := Grammar.Reached.start.steps hsteps
  rw [List.nil_append] at hreached
  have hof := (hstart.steps hlettered.1 hsteps).fieldError hreached hspelled hfound
  rw [List.map_append, List.map_cons, List.append_cons]
  exact hof.append _

end

theorem readLine_eq (text : String) :
    readLine text = (tokenize (lineText text)).mapError .lexical >>=
      State.start.read State.line? (lineText text).toList.length := rfl

/-- The error of a text that is no line is found at the first place where no line can be reached. -/
theorem readLine_error {text : String} {e : ReadError} (h : readLine text = .error e) :
    e.LocalisedIn (lineText text) := by
  rw [readLine_eq] at h
  cases htokens : tokenize (lineText text) with
  | error lexical =>
      rw [htokens] at h
      cases h
      have hat := tokenize_error htokens
      exact ⟨htokens, hat.position_lt, hat⟩
  | ok tokens =>
      rw [htokens] at h
      rcases State.exists_of_read_eq_error h with hrun | ⟨last, hsteps, hlast, rfl⟩
      · obtain ⟨before, found, after, last, rfl, hsteps, hfound⟩ := State.exists_of_run_eq_error hrun
        rcases hfound with ⟨hfound, rfl⟩ | ⟨d, hfound, rfl⟩
        · exact ⟨before, after, htokens, exists_accepted_of_unexpected htokens hsteps,
            not_accepted_of_unexpected hsteps hfound⟩
        · exact ⟨_, htokens, fieldError_of_step htokens hsteps hfound⟩
      · exact ⟨rfl, tokens, htokens, exists_accepted_of_end htokens hsteps hlast⟩

/-- An operand without an operator, an open bracket, a comment in a comment, and an index that is not
whole. -/
theorem readLine_error_kinds :
    (∃ e, readLine "g1 x[2 3]\r\n" = .error e ∧ e.position? = some 7 ∧
        e.LocalisedIn (lineText "g1 x[2 3]\r\n")) ∧
      (∃ e, readLine "##[1\n" = .error e ∧ e.position? = some 4 ∧ e.LocalisedIn (lineText "##[1\n")) ∧
      (∃ e, readLine "g0 (a(b)" = .error e ∧ e.position? = some 5 ∧ e.LocalisedIn (lineText "g0 (a(b)")) ∧
      ∃ e, readLine "x#[1.5]" = .error e ∧ e.position? = none ∧ e.LocalisedIn (lineText "x#[1.5]") := by
  have htoken : readLine "g1 x[2 3]\r\n" =
      .error (.unexpectedToken ⟨.number (.integer 3) .positiveInteger, 7⟩ .operatorOrClose) := by
    decide +kernel
  have hend : readLine "##[1\n" = .error (.unexpectedEnd 4 .operatorOrClose) := by decide +kernel
  have hlexical : readLine "g0 (a(b)" = .error (.lexical (.nestedComment 5)) := by decide +kernel
  have hfield : readLine "x#[1.5]" =
      .error (.field (.invalidParameterIndex (Binary64.nearest false 15 10))) := by
    decide +kernel
  exact ⟨⟨_, htoken, rfl, readLine_error htoken⟩, ⟨_, hend, rfl, readLine_error hend⟩,
    ⟨_, hlexical, rfl, readLine_error hlexical⟩, _, hfield, rfl, readLine_error hfield⟩

end GCode
