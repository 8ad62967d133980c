import GCode.Proofs.Scanning.Fitting

/-!
# Lines of two texts

Two texts with a space between them are read as one line that has what each of them has. The space keeps
the last token of the first text, and no token that starts a line can be read otherwise behind an operand.
-/

namespace GCode

open Reader

/-! ## Scanning -/

/-- Only a number depends on whether an operand ends before it. -/
theorem Lexeme.Fits.of_not_isNumber {text : List Char} {lexeme : Lexeme} (h : lexeme.Fits false text)
    (hno : ¬ lexeme.token.IsNumber) (a : Bool) : lexeme.Fits a text :=
  { h with
    sign := fun s rest htext hsign hstart => absurd ((h.sign s rest htext hsign hstart).mpr rfl) hno }

theorem Cuts.of_not_isNumber {text : List Char} {start : Nat} {ps : List Piece}
    (h : Cuts text start false ps) (hno : ∀ p ∈ ps.head?, ¬ p.token.IsNumber) (a : Bool) :
    Cuts text start a ps := by
  cases h with
  | nil hgap => exact .nil hgap
  | cons hle hgap hfits hps => exact .cons hle hgap (hfits.of_not_isNumber (hno _ rfl) a) hps

/-- The pieces of a text are what it scans as. -/
theorem Cuts.scans {text : List Char} {start : Nat} {a : Bool} {ps : List Piece} (h : Cuts text start a ps)
    (hstart : start ≤ text.length) : ∃ b, Scans a (text.drop start) (ps.map Piece.token) b [] := by
  induction h with
  | nil hgap =>
      rw [← Text.slice_append_drop hstart, List.drop_length]
      exact ⟨_, .gaps hgap.slice (.nil _ [])⟩
  | cons hle hgap hfits _ ih =>
      rename_i start flag p ps
      have hin := hfits.width_le
      have hpos := hfits.width_pos
      rw [List.length_drop] at hin
      obtain ⟨b, hb⟩ := ih (by simp only [Piece.stop, Piece.lexeme] at hin hpos ⊢; omega)
      have hscans := Scans.of_fits hfits
      rw [List.drop_drop] at hscans
      rw [← Text.slice_append_drop hle]
      exact ⟨b, .gaps hgap.slice (hscans.append hb)⟩

theorem Piece.map_token_placed (ps : List Piece) : (ps.map placed).map (·.token) = ps.map token :=
  List.map_map

theorem scans_of_tokenize {text : String} {tokens : List PlacedToken} (h : tokenize text = .ok tokens)
    (hno : ∀ t ∈ tokens.head?, ¬ t.token.IsNumber) (a : Bool) :
    ∃ b, Scans a text.toList (tokens.map (·.token)) b [] := by
  obtain ⟨ps, rfl, hcuts⟩ := exists_cuts_of_tokenize h
  rw [Piece.map_token_placed]
  refine (hcuts.of_not_isNumber (fun p hp => ?_) a).scans (Nat.zero_le _)
  exact hno p.placed (by rw [List.head?_map, hp]; rfl)

/-- A space keeps the tokens of a text in front of it, if no comment runs over the space. -/
theorem scans_space_of_tokenize {text : String} {tokens : List PlacedToken} (h : tokenize text = .ok tokens)
    (hline : ∀ t ∈ tokens, ∀ comment, t.token ≠ .lineComment comment) (more : List Char) :
    ∃ b, Scans false (text.toList ++ ' ' :: more) (tokens.map (·.token)) b (' ' :: more) := by
  obtain ⟨ps, rfl, hcuts⟩ := exists_cuts_of_tokenize h
  have hinside := hcuts.cut.inside
  rw [← List.append_nil ps] at hcuts
  have hfront := hcuts.scans_front (Nat.zero_le _) (Nat.le_refl _)
    (fun p hp => ⟨(hinside p hp).2, hline p.placed (List.mem_map_of_mem hp)⟩) (by simp) more
  rw [Piece.map_token_placed]
  simpa only [Text.slice, List.drop_zero, Nat.sub_zero, List.take_length] using hfront

/-! ## Reading -/

namespace Grammar

/-- No line starts with a number. -/
theorem Line.not_isNumber {ts : List Token} {line : GCode.Line} (h : Line ts line) :
    ∀ t ∈ ts.head?, ¬ t.IsNumber := by
  obtain ⟨last, hsteps, _⟩ := steps_start_iff.mpr h
  intro t ht hnumber
  obtain ⟨us, rfl⟩ := List.head?_eq_some_iff.mp ht
  cases t with
  | number n cls => cases hsteps
  | _ => exact hnumber

/-- Only a line with a comment has a token for one. -/
theorem Line.ne_lineComment {ts : List Token} {line : GCode.Line} (h : Line ts line)
    (hcomment : line.comment = none) : ∀ t ∈ ts, ∀ text, t ≠ .lineComment text := by
  obtain ⟨last, hsteps, hlast⟩ := steps_start_iff.mpr h
  rintro t ht text rfl
  obtain ⟨before, after, rfl⟩ := List.append_of_mem ht
  rw [State.steps_append] at hsteps
  obtain ⟨mid, _, hrest⟩ := bind_eq_ok_iff.mp hsteps
  obtain ⟨other, rfl, hother⟩ := State.finished_of_lineComment hrest
  cases hlast
  rw [hcomment] at hother
  cases hother

end Grammar

/-- Two texts that are lines are one line with a space between them, unless a comment at the end of the
first or a mark or a number in the second stands in the way. -/
theorem readLine_append_space {a b : String} {first second : Line}
    (hback : ∀ c ∈ a.toList.getLast?, Text.isLineEnd c = false) (ha : readLine a = .ok first)
    (hcomment : first.comment = none) (hb : readLine b = .ok second) (hdeleted : second.deleted = false)
    (hnumber : second.number = none) :
    readLine (a ++ " " ++ b) =
      .ok { first with items := first.items ++ second.items, comment := second.comment } := by
  obtain ⟨tokens, htokens, hfirst⟩ := readLine_eq_ok_iff.mp ha
  obtain ⟨tokens', htokens', hsecond⟩ := readLine_eq_ok_iff.mp hb
  rw [lineText_of_back hback] at htokens
  have hline : ∀ t ∈ tokens, ∀ comment, t.token ≠ .lineComment comment :=
    fun t ht => hfirst.ne_lineComment hcomment t.token (List.mem_map_of_mem ht)
  have hno : ∀ t ∈ tokens'.head?, ¬ t.token.IsNumber :=
    fun t ht => hsecond.not_isNumber t.token (by rw [List.head?_map, ht]; rfl)
  obtain ⟨flag, hfront⟩ := scans_space_of_tokenize htokens hline (lineText b).toList
  obtain ⟨_, hrest⟩ := scans_of_tokenize htokens' hno flag
  have hscans := hfront.append hrest.space
  have htext : (a ++ " " ++ lineText b).toList = a.toList ++ ' ' :: (lineText b).toList := by simp
  rw [← htext] at hscans
  obtain ⟨all, hall, hkinds⟩ := tokenize_of_scans hscans
  rw [readLine_eq_ok_iff, lineText_append_space]
  exact ⟨all, hall, hkinds ▸ hfirst.append hcomment hsecond hdeleted hnumber⟩

/-- The first text ends with an operand, and the second one starts with an index. -/
theorem readLine_append_space_setting :
    ∃ first second, readLine "/n5 x[1]" = .ok first ∧ readLine "#<a>=-2 ; end\r\n" = .ok second ∧
      readLine ("/n5 x[1]" ++ " " ++ "#<a>=-2 ; end\r\n") =
        .ok ⟨true, some (.integer 5), some "end", first.items ++ second.items⟩ := by
  have ha : readLine "/n5 x[1]" =
      .ok ⟨true, some (.integer 5), none, [.word ⟨'X', .literal (.integer 1)⟩]⟩ := by
    decide +kernel
  have hb : readLine "#<a>=-2 ; end\r\n" =
      .ok ⟨false, none, some "end", [.setting ⟨.named "a", .literal (.integer (-2))⟩]⟩ := by
    decide +kernel
  exact ⟨_, _, ha, hb, readLine_append_space (Text.back_of_any (by decide)) ha rfl hb rfl rfl⟩

end GCode
