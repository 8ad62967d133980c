import GCode.Token.Cursor
import GCode.Proofs.Scanning.Lexeme

/-!
# How tokens cut a text

The tokens of an accepted text cover it with lexemes that do not overlap. What they leave is spaces and
tabs, so nothing of the text is lost.
-/

namespace GCode

/-- A token with the place of its lexeme. -/
structure Piece where
  token : Token
  position : Nat
  width : Nat

namespace Piece

def placed (p : Piece) : PlacedToken :=
  ⟨p.token, p.position⟩

def lexeme (p : Piece) : Lexeme :=
  ⟨p.token, p.width⟩

/-- The first position behind the lexeme. -/
def stop (p : Piece) : Nat :=
  p.position + p.width

/-- Whether an operand ends with the last of these tokens. -/
def endsOperand (ps : List Piece) : Bool :=
  ps.getLast?.any (·.token.endsOperand)

end Piece

/-- From `start` to `stop` there are only spaces and tabs. -/
def Gap (text : List Char) (start stop : Nat) : Prop :=
  ∀ i c, text[i]? = some c → start ≤ i → i < stop → c = ' ' ∨ c = '\t'

structure Cut (text : List Char) (ps : List Piece) : Prop where
  inside : ∀ p ∈ ps, p.position < p.stop ∧ p.stop ≤ text.length
  disjoint : ps.Pairwise fun p q => p.stop ≤ q.position
  gaps : ∀ i c, text[i]? = some c → (∀ p ∈ ps, i < p.position ∨ p.stop ≤ i) → c = ' ' ∨ c = '\t'
  spelled : ∀ p ∈ ps, p.token.Spelled ((text.drop p.position).take p.width)
  maximal : ∀ p ∈ ps, p.token.Maximal (text.drop p.position) p.width
  /-- A sign in front of a number belongs to it unless the token before ends an operand. -/
  sign : ∀ before p after s rest, ps = before ++ p :: after → text.drop p.position = s :: rest →
    s = '+' ∨ s = '-' → Numeral.startsUnsigned rest = true →
    (p.token.IsNumber ↔ Piece.endsOperand before = false)

/-! ## Runs of a cursor -/

/-- The cursor stands in the text. -/
structure Cursor.In (text : List Char) (cursor : Cursor) : Prop where
  rest : cursor.rest = text.drop cursor.position
  position_le : cursor.position ≤ text.length

/-- The pieces that a cursor moves over, from its position and flag on. -/
inductive Cuts (text : List Char) : Nat → Bool → List Piece → Prop where
  | nil {start flag} : Gap text start text.length → Cuts text start flag []
  | cons {start flag p ps} : start ≤ p.position → Gap text start p.position →
      p.lexeme.Fits flag (text.drop p.position) → Cuts text p.stop p.token.endsOperand ps →
      Cuts text start flag (p :: ps)

theorem isGap_iff {c : Char} : isGap c = true ↔ c = ' ' ∨ c = '\t' := by
  simp [isGap]

namespace Cursor

theorem In.start (text : List Char) : (Cursor.start text).In text :=
  ⟨rfl, Nat.zero_le _⟩

theorem In.skipGap {text : List Char} {cursor : Cursor} (h : cursor.In text) :
    cursor.skipGap.In text ∧ cursor.position ≤ cursor.skipGap.position ∧
      Gap text cursor.position cursor.skipGap.position := by
  have hrest := h.rest
  have hle := (List.takeWhile_prefix (l := cursor.rest) isGap).length_le
  have hlen : cursor.rest.length = text.length - cursor.position := by simp [hrest]
  refine ⟨⟨?_, ?_⟩, Nat.le_add_right _ _, ?_⟩
  · simp only [Cursor.skipGap]
    rw [← Text.drop_length_takeWhile, ← List.drop_drop, ← hrest]
  · have := h.position_le
    simp only [Cursor.skipGap]
    omega
  · intro i c hc hstart hstop
    simp only [Cursor.skipGap] at hstop
    have hget : cursor.rest[i - cursor.position]? = some c := by
      rw [hrest, List.getElem?_drop, Nat.add_sub_cancel' hstart]
      exact hc
    rw [← List.takeWhile_append_dropWhile (p := isGap) (l := cursor.rest),
      List.getElem?_append_left (by omega)] at hget
    exact isGap_iff.mp (Text.all_of_mem_takeWhile c (List.mem_of_getElem? hget))

/-- What a move of the cursor does: it skips a gap and scans a lexeme. -/
theorem scan_of_next? {cursor after : Cursor} {token : PlacedToken}
    (h : cursor.next? = some (.ok (token, after))) :
    ∃ c cs lexeme, cursor.skipGap.rest = c :: cs ∧
      Lexeme.scan cursor.afterOperand cursor.skipGap.position c cs = .ok lexeme ∧
      token = ⟨lexeme.token, cursor.skipGap.position⟩ ∧ after = cursor.skipGap.advance lexeme := by
  rw [next?] at h
  split at h
  · cases h
  · rename_i c cs hrest
    split at h
    · rename_i lexeme hscan
      cases h
      exact ⟨c, cs, lexeme, hrest, hscan, rfl, rfl⟩
    · cases h

/-- A move takes the cursor over a gap and a lexeme. -/
theorem In.next {text : List Char} {cursor after : Cursor} {token : PlacedToken} (h : cursor.In text)
    (hnext : cursor.next? = some (.ok (token, after))) :
    ∃ p : Piece, p.placed = token ∧ cursor.position ≤ p.position ∧
      Gap text cursor.position p.position ∧
      p.lexeme.Fits cursor.afterOperand (text.drop p.position) ∧
      after.In text ∧ after.position = p.stop ∧ after.afterOperand = p.token.endsOperand := by
  obtain ⟨hin, hle, hgap⟩ := h.skipGap
  obtain ⟨c, cs, lexeme, hrest, hscan, rfl, rfl⟩ := scan_of_next? hnext
  have hfits := Lexeme.scan_fits hscan
  rw [← hrest, hin.rest] at hfits
  have hwidth : max lexeme.width 1 = lexeme.width := Nat.max_eq_left hfits.width_pos
  have hwle := hfits.width_le
  rw [List.length_drop] at hwle
  have hple := hin.position_le
  refine ⟨⟨lexeme.token, cursor.skipGap.position, lexeme.width⟩, rfl, hle, hgap, hfits, ⟨?_, ?_⟩,
    rfl, rfl⟩
  · simp only [advance, hwidth]
    rw [hin.rest, List.drop_drop]
  · simp only [advance]
    omega

theorem In.gap_of_next?_eq_none {text : List Char} {cursor : Cursor} (h : cursor.In text)
    (hnext : cursor.next? = none) : Gap text cursor.position text.length := by
  obtain ⟨hin, hle, hgap⟩ := h.skipGap
  have hnil : cursor.skipGap.rest = [] := by
    rw [next?] at hnext
    split at hnext
    · assumption
    · split at hnext <;> cases hnext
  rw [hin.rest, List.drop_eq_nil_iff] at hnil
  exact fun i c hc hstart hstop => hgap i c hc hstart (by omega)

theorem run_of_none {cursor : Cursor} (h : cursor.next? = none) : cursor.run = ([], none) := by
  rw [run]
  split <;> simp_all

theorem run_of_error {cursor : Cursor} {e : LexicalError} (h : cursor.next? = some (.error e)) :
    cursor.run = ([], some e) := by
  rw [run]
  split <;> simp_all

theorem run_of_ok {cursor after : Cursor} {token : PlacedToken}
    (h : cursor.next? = some (.ok (token, after))) :
    cursor.run = (token :: after.run.1, after.run.2) := by
  rw [run]
  split <;> simp_all

theorem In.cuts {text : List Char} {cursor : Cursor} (h : cursor.In text)
    (hrun : cursor.run.2 = none) :
    ∃ ps : List Piece, ps.map Piece.placed = cursor.run.1 ∧
      Cuts text cursor.position cursor.afterOperand ps := by
  induction cursor using run.induct with
  | case1 cursor hnext =>
      rw [run_of_none hnext]
      exact ⟨[], rfl, .nil (h.gap_of_next?_eq_none hnext)⟩
  | case2 cursor e hnext =>
      rw [run_of_error hnext] at hrun
      cases hrun
  | case3 cursor token after hnext _ _ _ ih =>
      rw [run_of_ok hnext] at hrun ⊢
      obtain ⟨p, hp, hle, hgap, hfits, hin, hstop, hflag⟩ := h.next hnext
      obtain ⟨ps, hps, hcuts⟩ := ih hin hrun
      rw [hstop, hflag] at hcuts
      exact ⟨p :: ps, by simp [hp, hps], .cons hle hgap hfits hcuts⟩

theorem tokens_eq_ok_iff {cursor : Cursor} {tokens : List PlacedToken} :
    cursor.tokens = .ok tokens ↔ cursor.run = (tokens, none) := by
  rw [Cursor.tokens]
  split <;> simp_all

end Cursor

/-! ## What the pieces do to the whole text -/

namespace Cuts

variable {text : List Char} {start : Nat} {flag : Bool} {ps : List Piece}

theorem fits (h : Cuts text start flag ps) :
    ∀ p ∈ ps, ∃ flag, p.lexeme.Fits flag (text.drop p.position) := by
  induction h with
  | nil => simp
  | cons _ _ hfits _ ih => exact List.forall_mem_cons.mpr ⟨⟨_, hfits⟩, ih⟩

theorem start_le (h : Cuts text start flag ps) : ∀ p ∈ ps, start ≤ p.position := by
  induction h with
  | nil => simp
  | cons hle _ _ _ ih =>
      refine List.forall_mem_cons.mpr ⟨hle, fun q hq => ?_⟩
      exact Nat.le_trans hle (Nat.le_trans (Nat.le_add_right _ _) (ih q hq))

theorem disjoint (h : Cuts text start flag ps) : ps.Pairwise fun p q => p.stop ≤ q.position := by
  induction h with
  | nil => exact .nil
  | cons _ _ _ hps ih => exact List.pairwise_cons.mpr ⟨hps.start_le, ih⟩

theorem gaps (h : Cuts text start flag ps) (i : Nat) (c : Char) (hc : text[i]? = some c)
    (hi : start ≤ i) (hout : ∀ p ∈ ps, i < p.position ∨ p.stop ≤ i) : c = ' ' ∨ c = '\t' := by
  induction h with
  | nil hgap => exact hgap i c hc hi (List.getElem?_eq_some_iff.mp hc).1
  | cons _ hgap _ _ ih =>
      obtain ⟨hp, hps⟩ := List.forall_mem_cons.mp hout
      rcases hp with hbefore | hbehind
      · exact hgap i c hc hi hbefore
      · exact ih hbehind hps

/-- The flag behind some pieces says whether the last of them ends an operand. -/
theorem fits_behind {before after : List Piece} {p : Piece}
    (h : Cuts text start flag (before ++ p :: after)) :
    p.lexeme.Fits (if before = [] then flag else Piece.endsOperand before) (text.drop p.position) := by
  induction before generalizing start flag with
  | nil =>
      cases h with
      | cons _ _ hfits _ => exact hfits
  | cons q before ih =>
      cases h with
      | cons _ _ _ hps =>
          have := ih hps
          cases before with
          | nil => simpa [Piece.endsOperand] using this
          | cons r before => simpa [Piece.endsOperand] using this

theorem cut (h : Cuts text 0 false ps) : Cut text ps where
  inside := by
    intro p hp
    obtain ⟨_, hfits⟩ := h.fits p hp
    have hpos := hfits.width_pos
    have hle := hfits.width_le
    simp only [Piece.lexeme, List.length_drop, Piece.stop] at *
    omega
  disjoint := h.disjoint
  gaps := fun i c hc hout => h.gaps i c hc (Nat.zero_le i) hout
  spelled := by
    intro p hp
    obtain ⟨_, hfits⟩ := h.fits p hp
    exact hfits.spelled
  maximal := by
    intro p hp
    obtain ⟨_, hfits⟩ := h.fits p hp
    exact hfits.maximal
  sign := by
    intro before p after s rest hps hdrop hs hstart
    subst hps
    have hfits := h.fits_behind
    have hflag : (if before = [] then false else Piece.endsOperand before) =
        Piece.endsOperand before := by
      cases before <;> rfl
    rw [hflag] at hfits
    exact hfits.sign s rest hdrop (Sign.isSome_ofChar?_iff.mpr hs) hstart

end Cuts

/-! ## Accepted texts -/

theorem Cut.increasing {text : List Char} {ps : List Piece} (h : Cut text ps) :
    (ps.map Piece.placed).Pairwise fun t u => t.position < u.position := by
  rw [List.pairwise_map]
  refine h.disjoint.imp_of_mem fun {p q} hp _ hpq => ?_
  have hpos := (h.inside p hp).1
  exact Nat.lt_of_lt_of_le hpos hpq

theorem exists_cuts_of_tokenize {text : String} {tokens : List PlacedToken}
    (h : tokenize text = .ok tokens) :
    ∃ ps : List Piece, ps.map Piece.placed = tokens ∧ Cuts text.toList 0 false ps := by
  have hrun := Cursor.tokens_eq_ok_iff.mp h
  obtain ⟨ps, hps, hcuts⟩ := (Cursor.In.start text.toList).cuts (by rw [hrun])
  rw [hrun] at hps
  exact ⟨ps, hps, hcuts⟩

/-- The tokens of an accepted text come with the lexemes that spell them. -/
theorem exists_cut_of_tokenize {text : String} {tokens : List PlacedToken}
    (h : tokenize text = .ok tokens) :
    ∃ ps : List Piece, ps.map Piece.placed = tokens ∧ Cut text.toList ps := by
  obtain ⟨ps, hps, hcuts⟩ := exists_cuts_of_tokenize h
  exact ⟨ps, hps, hcuts.cut⟩

/-- The tokens of an accepted text stand at increasing positions and cut it into longest lexemes. -/
theorem tokenize_cuts_text {text : String} {tokens : List PlacedToken}
    (h : tokenize text = .ok tokens) :
    tokens.Pairwise (fun t u => t.position < u.position) ∧
      ∃ ps : List Piece, ps.map Piece.placed = tokens ∧ Cut text.toList ps := by
  obtain ⟨ps, rfl, hcut⟩ := exists_cut_of_tokenize h
  exact ⟨hcut.increasing, ps, rfl, hcut⟩

/-- The first sign belongs to a number, the second is an operator. -/
theorem tokenize_cuts_text_signs :
    ∃ tokens, tokenize "x-.5[#<a>-1]; end " = .ok tokens ∧
      tokens.Pairwise (fun t u => t.position < u.position) ∧
      ∃ ps : List Piece, ps.map Piece.placed = tokens ∧ Cut "x-.5[#<a>-1]; end ".toList ps := by
  have h : tokenize "x-.5[#<a>-1]; end " =
      .ok [⟨.letter 'X', 0⟩, ⟨.number (.decimal (Binary64.nearest true 5 10)) .real, 1⟩,
        ⟨.leftBracket, 4⟩, ⟨.hash, 5⟩, ⟨.name "a", 6⟩, ⟨.operator (.binary .subtract), 9⟩,
        ⟨.number (.integer 1) .positiveInteger, 10⟩, ⟨.rightBracket, 11⟩, ⟨.lineComment "end", 12⟩] :=
    Cursor.tokens_eq_ok_iff.mpr (by decide +kernel)
  exact ⟨_, h, tokenize_cuts_text h⟩

end GCode
