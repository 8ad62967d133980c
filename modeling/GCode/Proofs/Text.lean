import GCode.Text.Blank
import GCode.Text.Case
import GCode.Text.Digit
import Mathlib.Data.List.TakeWhile

/-!
# Runs of characters, the ends of texts and their lines
-/

namespace GCode.Text

/-! ## Runs at the front -/

/-- The text does not start with such a character. -/
def Stops (p : Char → Bool) (cs : List Char) : Prop :=
  ∀ c ∈ cs.head?, p c = false

@[simp] theorem stops_nil (p : Char → Bool) : Stops p [] := by
  simp [Stops]

@[simp] theorem stops_cons {p : Char → Bool} {c : Char} {cs : List Char} :
    Stops p (c :: cs) ↔ p c = false := by
  simp [Stops]

theorem stops_dropWhile (p : Char → Bool) (cs : List Char) : Stops p (cs.dropWhile p) := by
  induction cs with
  | nil => simp
  | cons c cs ih =>
      rw [List.dropWhile_cons]
      split
      · exact ih
      · rename_i hc
        simpa using hc

theorem drop_length_takeWhile (p : Char → Bool) (cs : List Char) :
    cs.drop (cs.takeWhile p).length = cs.dropWhile p := by
  have h := List.takeWhile_append_dropWhile (p := p) (l := cs)
  calc cs.drop (cs.takeWhile p).length
      = (cs.takeWhile p ++ cs.dropWhile p).drop (cs.takeWhile p).length := by rw [h]
    _ = cs.dropWhile p := List.drop_left

theorem all_of_mem_takeWhile {p : Char → Bool} {cs : List Char} :
    ∀ c ∈ cs.takeWhile p, p c = true :=
  List.all_eq_true.mp List.all_takeWhile

theorem takeWhile_append_of_stops {p : Char → Bool} {cs rest : List Char}
    (hcs : ∀ c ∈ cs, p c = true) (hrest : Stops p rest) : (cs ++ rest).takeWhile p = cs := by
  rw [List.takeWhile_append_of_pos hcs]
  cases rest with
  | nil => simp
  | cons c rest => simp [stops_cons.mp hrest]

theorem digit_le {c : Char} (h : c.isDigit = true) : 48 ≤ c.toNat ∧ c.toNat ≤ 57 :=
  Char.isDigit_iff_toNat.mp h

/-! ## Keywords -/

theorem startsIgnoringCase_iff {ks cs : List Char} :
    startsIgnoringCase ks cs = true ↔ ks.map Char.toLower <+: cs.map Char.toLower := by
  induction ks generalizing cs with
  | nil => simp [startsIgnoringCase]
  | cons k ks ih =>
      cases cs with
      | nil => simp [startsIgnoringCase]
      | cons c cs => simp [startsIgnoringCase, ih, List.cons_prefix_cons]

/-- A text does not start with a keyword that only goes on with a foreign character. -/
theorem startsIgnoringCase_append {ks cs rest : List Char}
    (h : ∀ d ∈ rest.head?, d.toLower ∉ ks.map Char.toLower) :
    startsIgnoringCase ks (cs ++ rest) = startsIgnoringCase ks cs := by
  induction ks generalizing cs with
  | nil => simp [startsIgnoringCase]
  | cons k ks ih =>
      cases cs with
      | cons c cs =>
          have htail : ∀ d ∈ rest.head?, d.toLower ∉ ks.map Char.toLower :=
            fun d hd hmem => h d hd (List.mem_cons_of_mem _ hmem)
          simp only [List.cons_append, startsIgnoringCase, ih htail]
      | nil =>
          cases rest with
          | nil => rfl
          | cons d rest =>
              have hne : k.toLower ≠ d.toLower := by
                intro heq
                exact h d rfl (by simp [heq])
              simp [startsIgnoringCase, hne]

/-! ## The two ends -/

/-- Neither the first nor the last character is such a one. -/
structure Trimmed (p : Char → Bool) (cs : List Char) : Prop where
  front : ∀ c ∈ cs.head?, p c = false
  back : ∀ c ∈ cs.getLast?, p c = false

theorem dropWhile_of_stops {p : Char → Bool} {cs : List Char} (h : Stops p cs) :
    cs.dropWhile p = cs := by
  cases cs with
  | nil => rfl
  | cons c cs => simp [stops_cons.mp h]

theorem dropEndWhile_of_back {p : Char → Bool} {cs : List Char}
    (h : ∀ c ∈ cs.getLast?, p c = false) : dropEndWhile p cs = cs := by
  rw [dropEndWhile, dropWhile_of_stops, List.reverse_reverse]
  simpa [Stops] using h

theorem back_of_any {p : Char → Bool} {cs : List Char} (h : cs.any p = false) :
    ∀ c ∈ cs.getLast?, p c = false := by
  intro c hc
  simpa using List.any_eq_false.mp h c (List.mem_of_getLast? hc)

theorem back_append {p : Char → Bool} {cs ds : List Char} (hcs : ∀ c ∈ cs.getLast?, p c = false)
    (hds : ∀ c ∈ ds.getLast?, p c = false) : ∀ c ∈ (cs ++ ds).getLast?, p c = false := by
  intro c hc
  rw [List.getLast?_append, Option.mem_def, Option.or_eq_some_iff] at hc
  rcases hc with hc | ⟨_, hc⟩
  · exact hds c hc
  · exact hcs c hc

theorem back_dropEndWhile (p : Char → Bool) (cs : List Char) :
    ∀ c ∈ (dropEndWhile p cs).getLast?, p c = false := by
  have h := stops_dropWhile p cs.reverse
  simpa [Stops, dropEndWhile] using h

/-- Cutting at the end stops at a character that stays. -/
theorem dropEndWhile_append_cons {p : Char → Bool} {d : Char} (hd : p d = false) (cs ds : List Char) :
    dropEndWhile p (cs ++ d :: ds) = cs ++ d :: dropEndWhile p ds := by
  have hcut : (ds.reverse ++ d :: cs.reverse).dropWhile p = ds.reverse.dropWhile p ++ d :: cs.reverse := by
    rw [List.dropWhile_append, List.dropWhile_cons, hd]
    split
    · rename_i hnil
      rw [List.isEmpty_iff.mp hnil]
      rfl
    · rfl
  simp [dropEndWhile, hcut]

theorem exists_of_dropEndWhile (p : Char → Bool) (cs : List Char) :
    ∃ back, dropEndWhile p cs ++ back = cs ∧ ∀ c ∈ back, p c = true := by
  refine ⟨(cs.reverse.takeWhile p).reverse, ?_, fun c hc => all_of_mem_takeWhile c (List.mem_reverse.mp hc)⟩
  rw [dropEndWhile, ← List.reverse_append, List.takeWhile_append_dropWhile, List.reverse_reverse]

theorem dropEndWhile_eq_take (p : Char → Bool) (cs : List Char) :
    dropEndWhile p cs = cs.take (cs.length - (cs.reverse.takeWhile p).length) := by
  rw [dropEndWhile, ← drop_length_takeWhile, List.reverse_drop, List.reverse_reverse, List.length_reverse]

/-- What is cut off at the end does not change where a text starts, unless nothing is left of it. -/
theorem front_dropEndWhile {p q : Char → Bool} {cs : List Char} (h : Stops q cs) :
    Stops q (dropEndWhile p cs) := by
  obtain ⟨back, hback, -⟩ := exists_of_dropEndWhile p cs
  intro c hc
  apply h c
  rw [← hback]
  simp only [List.head?_append, Option.mem_def] at hc ⊢
  rw [hc]; rfl

theorem trimmed_trim (cs : List Char) : Trimmed isBlank (trim cs) :=
  ⟨front_dropEndWhile (stops_dropWhile isBlank cs), back_dropEndWhile isBlank _⟩

theorem trim_of_trimmed {cs : List Char} (h : Trimmed isBlank cs) : trim cs = cs := by
  rw [trim, dropWhile_of_stops h.front, dropEndWhile_of_back h.back]

/-- Nothing is left of a text exactly if it is blank. -/
theorem trim_eq_nil_iff {cs : List Char} : trim cs = [] ↔ ∀ c ∈ cs, isBlank c = true := by
  rw [trim, dropEndWhile, List.reverse_eq_nil_iff, List.dropWhile_eq_nil_iff]
  simp only [List.mem_reverse]
  constructor
  · intro h
    have hstop := stops_dropWhile isBlank cs
    cases hrest : cs.dropWhile isBlank with
    | nil => exact List.dropWhile_eq_nil_iff.mp hrest
    | cons c rest =>
        rw [hrest] at h hstop
        have hc := h c List.mem_cons_self
        rw [stops_cons.mp hstop] at hc
        cases hc
  · intro h c hc
    exact h c ((List.dropWhile_sublist isBlank).mem hc)

/-- Blanks around a text are cut off. -/
theorem trim_append {front cs back : List Char} (hfront : ∀ c ∈ front, isBlank c = true)
    (hback : ∀ c ∈ back, isBlank c = true) (h : Trimmed isBlank cs) : trim (front ++ cs ++ back) = cs := by
  have hend : dropEndWhile isBlank (cs ++ back) = cs := by
    rw [dropEndWhile, List.reverse_append, List.dropWhile_append_of_pos (by simpa using hback)]
    exact dropEndWhile_of_back h.back
  rw [trim, List.append_assoc, List.dropWhile_append_of_pos hfront]
  cases cs with
  | nil =>
      rw [List.nil_append, ← List.append_nil back, List.dropWhile_append_of_pos hback]
      rfl
  | cons c cs =>
      have hstops : Stops isBlank (c :: cs ++ back) := stops_cons.mpr (h.front c rfl)
      rw [dropWhile_of_stops hstops, hend]

/-- A test that tells a character from the line ends. -/
theorem isLineEnd_of_test {p : Char → Bool} {c : Char} {b : Bool} (h : p c = b) (hr : p '\r' = !b)
    (hn : p '\n' = !b) : isLineEnd c = false := by
  have hcr : c ≠ '\r' := by
    rintro rfl
    simp [h] at hr
  have hlf : c ≠ '\n' := by
    rintro rfl
    simp [h] at hn
  simp [isLineEnd, hcr, hlf]

/-! ## Lines -/

theorem lines_cons {c : Char} {cs : List Char} (hc : c ≠ '\n') (hcs : c = '\r' → cs.head? ≠ some '\n') :
    lines (c :: cs) =
      match lines cs with
      | [] => [[c]]
      | l :: ls => (c :: l) :: ls := by
  have hfeed : ∀ ds, c = '\r' → cs = '\n' :: ds → False := by
    rintro ds rfl rfl
    exact hcs rfl rfl
  exact lines.eq_4 c cs hc hfeed

/-- A text without a line feed is one line, unless it is empty. -/
theorem lines_of_notMem {cs : List Char} (h : '\n' ∉ cs) (hne : cs ≠ []) : lines cs = [cs] := by
  induction cs with
  | nil => exact absurd rfl hne
  | cons c cs ih =>
      simp only [List.mem_cons, not_or] at h
      obtain ⟨hc, hcs⟩ := h
      rw [lines_cons (Ne.symm hc) (fun _ hhead => hcs (List.mem_of_head? hhead))]
      cases cs with
      | nil => rfl
      | cons d ds => rw [ih hcs (List.cons_ne_nil d ds)]

/-- A line feed ends a line. -/
theorem lines_append_feed {cs : List Char} (h : '\n' ∉ cs) (hback : ∀ c ∈ cs.getLast?, isLineEnd c = false)
    (ds : List Char) : lines (cs ++ '\n' :: ds) = cs :: lines ds := by
  induction cs with
  | nil => simp [lines]
  | cons c cs ih =>
      simp only [List.mem_cons, not_or] at h
      obtain ⟨hc, hcs⟩ := h
      rw [List.cons_append, lines_cons (Ne.symm hc)]
      · rw [ih hcs]
        intro d hd
        cases cs with
        | nil => cases hd
        | cons e es => exact hback d (by rwa [List.getLast?_cons_cons])
      · rintro rfl
        cases cs with
        | nil => exact absurd (hback '\r' rfl) (by decide)
        | cons e es =>
            rintro ⟨⟩
            exact hcs List.mem_cons_self

theorem length_lines_le (cs : List Char) : (lines cs).length ≤ cs.count '\n' + 1 := by
  fun_induction lines cs with
  | case1 => simp
  | case2 cs ih => simpa using ih
  | case3 cs ih => simpa using ih
  | case4 c cs _ _ _ _ => simp
  | case5 c cs hfeed _ l ls hlines ih =>
      have hcount : (c :: cs).count '\n' = cs.count '\n' := List.count_cons_of_ne hfeed
      rw [hlines] at ih
      rw [hcount]
      exact ih

/-- Texts that are joined by line feeds are the lines again, up to an empty one at the end. -/
theorem filter_lines_intercalate {p : List Char → Bool} (hp : p [] = false) {texts : List (List Char)}
    (h : ∀ cs ∈ texts, '\n' ∉ cs ∧ ∀ c ∈ cs.getLast?, isLineEnd c = false) :
    (lines (['\n'].intercalate texts)).filter p = texts.filter p := by
  induction texts with
  | nil => rfl
  | cons cs texts ih =>
      obtain ⟨⟨hcs, hback⟩, htexts⟩ := List.forall_mem_cons.mp h
      cases texts with
      | nil =>
          rw [List.intercalate_singleton]
          by_cases hne : cs = []
          · subst hne
            simp [lines, hp]
          · rw [lines_of_notMem hcs hne]
      | cons ds texts =>
          rw [List.intercalate_cons_cons, List.append_assoc, List.singleton_append,
            lines_append_feed hcs hback, List.filter_cons, List.filter_cons, ih htexts]

end GCode.Text
