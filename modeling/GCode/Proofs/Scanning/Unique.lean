import GCode.Proofs.Scanning.Fitting

/-!
# The cut of a text

There is only one way to cut a text into lexemes, and the scanner finds it. So a text is accepted exactly
if it can be cut, and what its tokens are can be shown without the scanner.
-/

namespace GCode

theorem Lexeme.Fits.ne_nil {a : Bool} {cs : List Char} {lexeme : Lexeme} (h : lexeme.Fits a cs) :
    cs ≠ [] := by
  rintro rfl
  have hpos := h.width_pos
  have hle := h.width_le
  rw [List.length_nil] at hle
  omega

/-! ## From the cut to the tokens -/

theorem Gap.skipGap {text : List Char} {start stop : Nat} (h : Gap text start stop) (flag : Bool)
    (hle : start ≤ stop) (hlen : stop ≤ text.length) (hstop : Text.Stops isGap (text.drop stop)) :
    Cursor.skipGap ⟨start, flag, text.drop start⟩ = ⟨stop, flag, text.drop stop⟩ := by
  have htake : (text.drop start).takeWhile isGap = Text.slice text start stop := by
    rw [← Text.slice_append_drop hle]
    exact Text.takeWhile_append_of_stops h.slice hstop
  have hdrop : (text.drop start).dropWhile isGap = text.drop stop := by
    rw [← Text.slice_append_drop hle, List.dropWhile_append_of_pos h.slice]
    exact Text.dropWhile_of_stops hstop
  simp only [Cursor.skipGap, htake, hdrop, Text.length_slice hlen, Nat.add_sub_cancel' hle]

theorem Cuts.run {text : List Char} {start : Nat} {flag : Bool} {ps : List Piece}
    (h : Cuts text start flag ps) (hstart : start ≤ text.length) :
    Cursor.run ⟨start, flag, text.drop start⟩ = (ps.map Piece.placed, none) := by
  induction h with
  | @nil start flag hgap =>
      have hskip := hgap.skipGap flag hstart (Nat.le_refl _) (by rw [List.drop_length]; exact Text.stops_nil _)
      apply Cursor.run_of_none
      simp only [Cursor.next?, hskip, List.drop_length]
  | @cons start flag p ps hle hgap hfits _ ih =>
      have hin := hfits.width_le
      have hne := hfits.ne_nil
      rw [List.length_drop] at hin
      rw [ne_eq, List.drop_eq_nil_iff] at hne
      cases hrest : text.drop p.position with
      | nil => exact absurd hrest hfits.ne_nil
      | cons c cs =>
          rw [hrest] at hfits
          have hscan := Lexeme.scan_eq_ok_iff (p := p.position).mpr hfits
          have hskip := hgap.skipGap flag hle (by omega)
            (by rw [hrest, Text.stops_cons]; exact hfits.isGap_head)
          have hrun := ih (by simp only [Piece.stop, Piece.lexeme] at hin ⊢; omega)
          have hnext : Cursor.next? ⟨start, flag, text.drop start⟩ =
              some (.ok (p.placed, ⟨p.stop, p.token.endsOperand, text.drop p.stop⟩)) := by
            simp only [Cursor.next?, hskip, hrest, hscan, Cursor.advance, Nat.max_eq_left hfits.width_pos]
            rw [← hrest, List.drop_drop]
            rfl
          rw [Cursor.run_of_ok hnext, hrun]
          rfl

/-- The pieces that are left behind those that end before `start`. -/
theorem Cut.cuts_append {text : List Char} {before after : List Piece} {start : Nat}
    (h : Cut text (before ++ after)) (hbefore : ∀ p ∈ before, p.stop ≤ start)
    (hafter : ∀ p ∈ after, start ≤ p.position) :
    Cuts text start (Piece.endsOperand before) after := by
  induction after generalizing before start with
  | nil =>
      refine .nil fun i c hc hle _ => h.gaps i c hc fun p hp => ?_
      rw [List.append_nil] at hp
      exact .inr (Nat.le_trans (hbefore p hp) hle)
  | cons p after ih =>
      obtain ⟨hp, _⟩ := List.forall_mem_cons.mp hafter
      have hdisjoint := h.disjoint
      rw [List.pairwise_append, List.pairwise_cons] at hdisjoint
      obtain ⟨_, ⟨hbehind, _⟩, _⟩ := hdisjoint
      have hinside := h.inside p (by simp)
      refine .cons hp (fun i c hc hle hlt => h.gaps i c hc fun q hq => ?_) ⟨?_, ?_, ?_, ?_, ?_⟩ ?_
      · rcases List.mem_append.mp hq with hq | hq
        · exact .inr (Nat.le_trans (hbefore q hq) hle)
        · rcases List.mem_cons.mp hq with rfl | hq
          · exact .inl hlt
          · have := hbehind q hq
            exact .inl (by omega)
      · simp only [Piece.stop] at hinside
        exact Nat.pos_of_lt_add_right hinside.1
      · simp only [Piece.stop] at hinside
        rw [List.length_drop]
        exact Nat.le_sub_of_add_le' hinside.2
      · exact h.spelled p (by simp)
      · exact h.maximal p (by simp)
      · exact fun s rest hdrop hs hstart =>
          h.sign before p after s rest rfl hdrop (Sign.isSome_ofChar?_iff.mp hs) hstart
      · have hflag : p.token.endsOperand = Piece.endsOperand (before ++ [p]) := by
          simp [Piece.endsOperand]
        rw [List.append_cons] at h
        rw [hflag]
        refine ih h (fun q hq => ?_) hbehind
        rcases List.mem_append.mp hq with hq | hq
        · exact Nat.le_trans (hbefore q hq) (Nat.le_trans hp (Nat.le_add_right _ _))
        · rw [List.mem_singleton.mp hq]

theorem Cut.cuts {text : List Char} {ps : List Piece} (h : Cut text ps) : Cuts text 0 false ps := by
  rw [← List.nil_append ps] at h
  exact h.cuts_append (by simp) (by simp)

theorem Cuts.tokenize {text : String} {ps : List Piece} (h : Cuts text.toList 0 false ps) :
    tokenize text = .ok (ps.map Piece.placed) :=
  Cursor.tokens_eq_ok_iff.mpr (h.run (Nat.zero_le _))

/-- A text has tokens exactly if it can be cut into lexemes, and then its tokens are those of the lexemes. -/
theorem tokenize_eq_ok_iff {text : String} {tokens : List PlacedToken} :
    tokenize text = .ok tokens ↔ ∃ ps : List Piece, ps.map Piece.placed = tokens ∧ Cut text.toList ps := by
  constructor
  · exact exists_cut_of_tokenize
  · rintro ⟨ps, rfl, hcut⟩
    exact hcut.cuts.tokenize

end GCode
