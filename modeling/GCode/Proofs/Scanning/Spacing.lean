import GCode.Proofs.Scanning.Unique

/-!
# Blanks between tokens

Spaces and tabs can be put in wherever no lexeme is cut in two. The tokens stay the same, and those behind
the place move with the text. Only the comment that runs to the end takes up what is put in behind it, and
it leaves blanks at its ends out.
-/

namespace GCode

/-! ## Putting a text in -/

namespace Text

/-- The text `cs` with `ds` in it at the place `n`. -/
def insert (cs : List Char) (n : Nat) (ds : List Char) : List Char :=
  cs.take n ++ (ds ++ cs.drop n)

/-- Where a place is when `k` characters are put in at the place `n`. -/
def shifted (n k i : Nat) : Nat :=
  if n ≤ i then i + k else i

variable {cs ds : List Char} {n : Nat}

theorem shifted_of_le {n k i : Nat} (h : n ≤ i) : shifted n k i = i + k :=
  if_pos h

theorem shifted_of_lt {n k i : Nat} (h : i < n) : shifted n k i = i :=
  if_neg (Nat.not_le.mpr h)

theorem length_insert (hn : n ≤ cs.length) : (insert cs n ds).length = cs.length + ds.length := by
  simp only [insert, List.length_append, List.length_take, List.length_drop]
  omega

theorem insert_length : insert cs cs.length ds = cs ++ ds := by
  simp [insert]

theorem drop_insert_of_le {i : Nat} (hn : n ≤ cs.length) (h : n ≤ i) :
    (insert cs n ds).drop (i + ds.length) = cs.drop i := by
  have hlength : (cs.take n ++ ds).length = n + ds.length := by
    rw [List.length_append, List.length_take, Nat.min_eq_left hn]
  rw [insert, ← List.append_assoc, List.drop_append, List.drop_of_length_le (by omega), List.nil_append,
    List.drop_drop, hlength]
  congr 1
  omega

theorem drop_insert_of_ge {i : Nat} (hn : n ≤ cs.length) (h : i ≤ n) :
    (insert cs n ds).drop i = slice cs i n ++ (ds ++ cs.drop n) := by
  rw [insert, List.drop_append_of_le_length (by rw [List.length_take]; omega), List.drop_take, slice]

theorem getElem?_insert {i : Nat} {c : Char} (hn : n ≤ cs.length) (h : (insert cs n ds)[i]? = some c) :
    i < n ∧ cs[i]? = some c ∨ c ∈ ds ∨ n + ds.length ≤ i ∧ cs[i - ds.length]? = some c := by
  rw [insert, List.getElem?_append, List.getElem?_append, List.length_take, Nat.min_eq_left hn] at h
  split at h
  · rename_i hlt
    rw [List.getElem?_take_of_lt hlt] at h
    exact .inl ⟨hlt, h⟩
  · split at h
    · exact .inr (.inl (List.mem_of_getElem? h))
    · rw [List.getElem?_drop] at h
      refine .inr (.inr ⟨by omega, ?_⟩)
      rw [← h]
      congr 1
      omega

/-- Blanks behind a text are cut off. -/
theorem trim_append_right (cs : List Char) {back : List Char} (h : ∀ c ∈ back, isBlank c = true) :
    trim (cs ++ back) = trim cs := by
  by_cases hall : ∀ c ∈ cs, isBlank c = true
  · rw [trim_eq_nil_iff.mpr hall, trim_eq_nil_iff, List.forall_mem_append]
    exact ⟨hall, h⟩
  · have hne : (cs.dropWhile isBlank).isEmpty = false := by
      rw [List.isEmpty_eq_false_iff, ne_eq, List.dropWhile_eq_nil_iff]
      exact hall
    rw [trim, trim, List.dropWhile_append, hne, if_neg Bool.false_ne_true, dropEndWhile, dropEndWhile,
      List.reverse_append, List.dropWhile_append_of_pos (by simpa using h)]

end Text

/-! ## Lexemes -/

namespace Lexeme

variable {a : Bool} {cs : List Char}

/-- A comment that runs to the end is all that is left. -/
theorem fits_lineComment_iff {text : String} {w : Nat} :
    Fits a cs ⟨.lineComment text, w⟩ ↔ ∃ ds, cs = ';' :: ds ∧ text.toList = Text.trim ds ∧ w = cs.length := by
  constructor
  · intro h
    have hall : w = cs.length := h.maximal
    have hspelled := h.spelled
    rw [List.take_of_length_le (Nat.le_of_eq hall.symm)] at hspelled
    cases hspelled with
    | lineComment htext => exact ⟨_, rfl, htext, hall⟩
  · rintro ⟨ds, rfl, htext, rfl⟩
    have hfits : Fits a (';' :: ds) (lineComment ds) := lineComment_fits
    rw [lineComment, ← htext, String.ofList_toList] at hfits
    exact hfits

/-- The comment takes up blanks behind it without a change of its text. -/
theorem Fits.append_blanks {text : String} {w : Nat} {blanks : List Char}
    (h : Fits a cs ⟨.lineComment text, w⟩) (hblanks : ∀ c ∈ blanks, Text.isBlank c = true) :
    Fits a (cs ++ blanks) ⟨.lineComment text, w + blanks.length⟩ := by
  obtain ⟨ds, rfl, htext, rfl⟩ := fits_lineComment_iff.mp h
  refine fits_lineComment_iff.mpr ⟨ds ++ blanks, rfl, ?_, List.length_append.symm⟩
  rw [htext, Text.trim_append_right ds hblanks]

theorem Fits.drop_blanks {text : String} {w : Nat} {blanks : List Char}
    (h : Fits a (cs ++ blanks) ⟨.lineComment text, w⟩) (hcs : cs ≠ [])
    (hblanks : ∀ c ∈ blanks, Text.isBlank c = true) : Fits a cs ⟨.lineComment text, cs.length⟩ := by
  obtain ⟨ds, hds, htext, -⟩ := fits_lineComment_iff.mp h
  obtain ⟨c, cs, rfl⟩ := List.exists_cons_of_ne_nil hcs
  rw [List.cons_append] at hds
  cases hds
  rw [Text.trim_append_right cs hblanks] at htext
  exact fits_lineComment_iff.mpr ⟨cs, rfl, htext, rfl⟩

theorem Fits.not_all_blank {lexeme : Lexeme} (h : Fits a cs lexeme) : ¬ ∀ c ∈ cs, Text.isBlank c = true := by
  intro hall
  obtain ⟨c, cs, rfl⟩ := List.exists_cons_of_ne_nil h.ne_nil
  cases (hall c List.mem_cons_self).symm.trans h.isBlank_head

/-- Only a comment that runs to the end takes up blanks behind it. -/
theorem Fits.width_le_of_blanks {blanks : List Char} {lexeme : Lexeme} (h : Fits a (cs ++ blanks) lexeme)
    (hline : ∀ text, lexeme.token ≠ .lineComment text) (hblanks : ∀ c ∈ blanks, Text.isBlank c = true) :
    lexeme.width ≤ cs.length := by
  by_contra hlt
  have hwidth := h.width_le
  have hlast : ((cs ++ blanks).take lexeme.width).getLast? = blanks[lexeme.width - 1 - cs.length]? := by
    rw [List.getLast?_take, if_neg (Nat.ne_of_gt h.width_pos), List.getElem?_append_right (by omega)]
    rw [List.length_append] at hwidth
    rw [List.getElem?_eq_getElem (by omega), Option.some_or]
  obtain ⟨c, hc⟩ : ∃ c, blanks[lexeme.width - 1 - cs.length]? = some c := by
    rw [List.length_append] at hwidth
    exact ⟨_, List.getElem?_eq_getElem (by omega)⟩
  have hblank := h.spelled.isBlank_getLast hline (hlast.trans hc)
  rw [hblanks c (List.mem_of_getElem? hc)] at hblank
  cases hblank

theorem Fits.insert {pre post blanks : List Char} {lexeme : Lexeme} (h : Fits a (pre ++ post) lexeme)
    (hw : lexeme.width ≤ pre.length) (hline : ∀ text, lexeme.token ≠ .lineComment text)
    (hblanks : ∀ c ∈ blanks, isGap c = true) : Fits a (pre ++ (blanks ++ post)) lexeme := by
  cases blanks with
  | nil => exact h
  | cons d blanks =>
      refine (h.truncate hw hline).extend hline ?_
      rintro _ ⟨⟩
      exact breaks_of_isGap (hblanks d List.mem_cons_self)

end Lexeme

/-! ## Pieces -/

theorem Gap.front {front back : List Char} {start stop : Nat} (h : Gap (front ++ back) start stop) :
    Gap front start stop := by
  intro i c hc
  refine h i c ?_
  rw [List.getElem?_append_left (List.getElem?_eq_some_iff.mp hc).1, hc]

theorem Gap.of_le {text : List Char} {start stop : Nat} (h : stop ≤ start) : Gap text start stop :=
  fun _ _ _ hstart hstop => absurd (Nat.lt_of_le_of_lt hstart hstop) (Nat.not_lt.mpr h)

theorem Gap.mono {text : List Char} {start stop stop' : Nat} (h : Gap text start stop) (hle : stop' ≤ stop) :
    Gap text start stop' :=
  fun i c hc hstart hstop => h i c hc hstart (Nat.lt_of_lt_of_le hstop hle)

theorem Gap.insert {text blanks : List Char} {n start stop start' stop' : Nat} (h : Gap text start stop)
    (hn : n ≤ text.length) (hblanks : ∀ c ∈ blanks, isGap c = true)
    (hfront : ∀ i < n, start' ≤ i → i < stop' → start ≤ i ∧ i < stop)
    (hback : ∀ i, n ≤ i → start' ≤ i + blanks.length → i + blanks.length < stop' → start ≤ i ∧ i < stop) :
    Gap (Text.insert text n blanks) start' stop' := by
  intro i c hc hstart hstop
  rcases Text.getElem?_insert hn hc with ⟨hlt, hc⟩ | hmem | ⟨hle, hc⟩
  · obtain ⟨hge, hlt⟩ := hfront i hlt hstart hstop
    exact h i c hc hge hlt
  · exact isGap_iff.mp (hblanks c hmem)
  · obtain ⟨hge, hlt⟩ := hback (i - blanks.length) (by omega) (by omega) (by omega)
    exact h _ c hc hge hlt

def PlacedToken.shift (n k : Nat) (t : PlacedToken) : PlacedToken :=
  { t with position := Text.shifted n k t.position }

/-- With blanks at the place `n` the text has these pieces, but for the shift. -/
def CutsWith (text : List Char) (n : Nat) (blanks : List Char) (start : Nat) (flag : Bool)
    (ps : List Piece) : Prop :=
  ∃ ps' : List Piece, ps'.map Piece.placed = (ps.map Piece.placed).map (.shift n blanks.length) ∧
    Cuts (Text.insert text n blanks) start flag ps'

namespace Cuts

variable {text blanks : List Char} {start n : Nat} {flag : Bool} {p : Piece} {ps : List Piece}

theorem eq_nil (h : Cuts text start flag ps) (hstart : text.length ≤ start) : ps = [] := by
  cases h with
  | nil => rfl
  | cons hle _ hfits _ => exact absurd (List.drop_of_length_le (Nat.le_trans hstart hle)) hfits.ne_nil

/-- A comment that runs to the end is the last piece. -/
theorem stop_of_lineComment {comment : String} (hfits : p.lexeme.Fits flag (text.drop p.position))
    (hcomment : p.token = .lineComment comment) : p.stop = text.length := by
  have hne := hfits.ne_nil
  have hwidth := hfits.maximal
  rw [ne_eq, List.drop_eq_nil_iff] at hne
  simp only [Piece.lexeme, hcomment, Token.Maximal, List.length_drop] at hwidth
  simp only [Piece.stop]
  omega

/-- A piece behind the place moves with the text. -/
theorem cons_moved (hn : n ≤ text.length) (hp : n ≤ p.position) (hle : start ≤ p.position + blanks.length)
    (hgap : Gap (Text.insert text n blanks) start (p.position + blanks.length))
    (hfits : p.lexeme.Fits flag (text.drop p.position))
    (h : CutsWith text n blanks (p.stop + blanks.length) p.token.endsOperand ps) :
    CutsWith text n blanks start flag (p :: ps) := by
  obtain ⟨ps', hps', hcuts⟩ := h
  refine ⟨⟨p.token, p.position + blanks.length, p.width⟩ :: ps', ?_, .cons hle hgap ?_ ?_⟩
  · rw [List.map_cons, List.map_cons, List.map_cons, hps', PlacedToken.shift]
    simp only [Piece.placed, Text.shifted_of_le hp]
  · rw [Text.drop_insert_of_le hn hp]
    exact hfits
  · simp only [Piece.stop] at hcuts ⊢
    rw [Nat.add_right_comm]
    exact hcuts

/-- A piece in front of the place stays where it is. Only its width may change. -/
theorem cons_kept {w : Nat} (hp : p.position < n) (hle : start ≤ p.position)
    (hgap : Gap (Text.insert text n blanks) start p.position)
    (hfits : Lexeme.Fits flag ((Text.insert text n blanks).drop p.position) ⟨p.token, w⟩)
    (h : CutsWith text n blanks (p.position + w) p.token.endsOperand ps) :
    CutsWith text n blanks start flag (p :: ps) := by
  obtain ⟨ps', hps', hcuts⟩ := h
  refine ⟨⟨p.token, p.position, w⟩ :: ps', ?_, .cons hle hgap hfits hcuts⟩
  rw [List.map_cons, List.map_cons, List.map_cons, hps', PlacedToken.shift]
  simp only [Piece.placed, Text.shifted_of_lt hp]

theorem shift (h : Cuts text start flag ps) (hn : n ≤ text.length) (hstart : n ≤ start)
    (hblanks : ∀ c ∈ blanks, isGap c = true) :
    CutsWith text n blanks (start + blanks.length) flag ps := by
  induction h with
  | nil hgap =>
      refine ⟨[], rfl, .nil (hgap.insert hn hblanks ?_ ?_)⟩
      · intros
        omega
      · rw [Text.length_insert hn]
        intros
        omega
  | @cons start flag p ps hle hgap hfits _ ih =>
      have hp : n ≤ p.position := Nat.le_trans hstart hle
      refine cons_moved hn hp (Nat.add_le_add_right hle _) ?_ hfits (ih (Nat.le_add_right_of_le hp))
      apply hgap.insert hn hblanks <;> intros <;> omega

/-- Blanks that cut no lexeme in two leave the tokens as they are. -/
theorem insert (h : Cuts text start flag ps) (hn : n ≤ text.length) (hstart : start ≤ n)
    (hout : ∀ p ∈ ps, n ≤ p.position ∨ p.stop ≤ n) (hblanks : ∀ c ∈ blanks, isGap c = true) :
    CutsWith text n blanks start flag ps := by
  induction h with
  | nil hgap =>
      refine ⟨[], rfl, .nil (hgap.insert hn hblanks ?_ ?_)⟩
      · intros
        omega
      · rw [Text.length_insert hn]
        intros
        omega
  | @cons start flag p ps hle hgap hfits hcuts ih =>
      obtain ⟨hp, hout⟩ := List.forall_mem_cons.mp hout
      have hpos : 0 < p.width := hfits.width_pos
      rcases hp with hbehind | hbefore
      · have hrest := hcuts.shift hn (Nat.le_add_right_of_le hbehind) hblanks
        refine cons_moved hn hbehind (Nat.le_add_right_of_le hle) ?_ hfits hrest
        apply hgap.insert hn hblanks <;> intros <;> omega
      have hlt : p.position < n := Nat.lt_of_lt_of_le (Nat.lt_add_of_pos_right hpos) hbefore
      have hgap' : Gap (Text.insert text n blanks) start p.position := by
        apply hgap.insert hn hblanks <;> intros <;> omega
      by_cases hline : ∃ comment, p.token = .lineComment comment
      · -- the comment runs to the end, so the place is there and nothing follows
        obtain ⟨comment, hcomment⟩ := hline
        have hstop := stop_of_lineComment hfits hcomment
        obtain rfl : n = text.length := Nat.le_antisymm hn (hstop ▸ hbefore)
        obtain rfl := hcuts.eq_nil (Nat.le_of_eq hstop.symm)
        refine cons_kept (w := p.width + blanks.length) hlt hle hgap' ?_ ⟨[], rfl, .nil (.of_le ?_)⟩
        · rw [Text.insert_length, List.drop_append_of_le_length (Nat.le_of_lt hlt), hcomment]
          rw [Piece.lexeme, hcomment] at hfits
          exact hfits.append_blanks fun c hc => isBlank_of_isGap (hblanks c hc)
        · rw [Text.length_insert hn, ← hstop, Piece.stop, Nat.add_assoc]
      · refine cons_kept hlt hle hgap' ?_ (ih hbefore hout)
        rw [← Text.slice_append_drop (Nat.le_of_lt hlt)] at hfits
        rw [Text.drop_insert_of_ge hn (Nat.le_of_lt hlt)]
        refine hfits.insert ?_ (fun comment hcomment => hline ⟨comment, hcomment⟩) hblanks
        rw [Text.length_slice hn]
        exact Nat.le_sub_of_add_le' hbefore

/-- The blanks behind a text can be left out. -/
theorem drop_blanks {front back : List Char} (h : Cuts (front ++ back) start flag ps)
    (hstart : start ≤ front.length) (hback : ∀ c ∈ back, Text.isBlank c = true) :
    ∃ ps' : List Piece, ps'.map Piece.placed = ps.map Piece.placed ∧ Cuts front start flag ps' := by
  induction h with
  | nil hgap =>
      refine ⟨[], rfl, .nil (hgap.front.mono ?_)⟩
      rw [List.length_append]
      exact Nat.le_add_right _ _
  | @cons start flag p ps hle hgap hfits hcuts ih =>
      have hp : p.position < front.length := by
        by_contra hnot
        rw [List.drop_append, List.drop_of_length_le (Nat.le_of_not_lt hnot), List.nil_append] at hfits
        exact hfits.not_all_blank fun c hc => hback c (List.mem_of_mem_drop hc)
      by_cases hline : ∃ comment, p.token = .lineComment comment
      · obtain ⟨comment, hcomment⟩ := hline
        obtain rfl := hcuts.eq_nil (Nat.le_of_eq (stop_of_lineComment hfits hcomment).symm)
        rw [List.drop_append_of_le_length (Nat.le_of_lt hp), Piece.lexeme, hcomment] at hfits
        have hne : front.drop p.position ≠ [] := mt List.drop_eq_nil_iff.mp (Nat.not_le.mpr hp)
        have hcut := hfits.drop_blanks hne hback
        rw [← hcomment] at hcut
        refine ⟨[⟨p.token, p.position, (front.drop p.position).length⟩], rfl,
          .cons hle hgap.front hcut (.nil (.of_le ?_))⟩
        rw [Piece.stop, List.length_drop, Nat.add_sub_cancel' (Nat.le_of_lt hp)]
      · have hnot : ∀ comment, p.token ≠ .lineComment comment := fun comment hcomment => hline ⟨comment, hcomment⟩
        rw [List.drop_append_of_le_length (Nat.le_of_lt hp)] at hfits
        have hwidth := hfits.width_le_of_blanks hnot hback
        have hstop : p.stop ≤ front.length := by
          simp only [Piece.lexeme, List.length_drop] at hwidth
          simp only [Piece.stop]
          omega
        obtain ⟨ps', hps', hcuts'⟩ := ih hstop
        refine ⟨p :: ps', by rw [List.map_cons, List.map_cons, hps'], .cons hle hgap.front ?_ hcuts'⟩
        exact hfits.truncate hwidth hnot

end Cuts

end GCode
