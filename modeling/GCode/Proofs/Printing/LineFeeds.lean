import GCode.Program
import GCode.Proofs.Editing
import GCode.Proofs.Printing.Line

/-!
# Line feeds in printed texts

The lines of a program are written with line feeds between them. The checks of a line keep line feeds out
of everything but its comments, and those of the comments stand in the text of the line as they are.
-/

namespace GCode

/-! ## Items -/

theorem Text.count_feed_of_any {cs : List Char} (h : cs.any isLineEnd = false) : cs.count '\n' = 0 := by
  rw [List.count_eq_zero]
  intro hmem
  exact List.any_eq_false.mp h '\n' hmem rfl

def Item.commentFeeds (item : Item) : ℕ :=
  (item.comment?.toList.map fun c => c.text.toList.count '\n').sum

theorem Item.count_text {item : Item} (hchecked : item.Checked)
    (hnames : ∀ name ∈ item.names, ParameterIndex.IsName name) :
    item.text.toList.count '\n' = item.commentFeeds := by
  cases item with
  | word w => exact Text.count_feed_of_any (Word.any_isLineEnd hchecked hnames)
  | comment c => simp [text, Comment.written, commentFeeds, comment?]
  | setting s => exact Text.count_feed_of_any (Setting.any_isLineEnd hnames)

/-! ## Lines -/

namespace Line

def names (line : Line) : List String :=
  line.items.flatMap Item.names

def commentTexts (line : Line) : List String :=
  line.comments.map Comment.text ++ line.comment.toList

/-- The line feeds in the comments of a line. -/
def commentFeeds (line : Line) : ℕ :=
  (line.commentTexts.map fun text => text.toList.count '\n').sum

theorem commentFeeds_eq_zero_iff {line : Line} :
    line.commentFeeds = 0 ↔ ∀ text ∈ line.commentTexts, '\n' ∉ text.toList := by
  simp [commentFeeds, List.sum_eq_zero_iff, List.count_eq_zero]

theorem commentFeeds_eq (line : Line) :
    line.commentFeeds = (line.items.map Item.commentFeeds).sum +
      (line.comment.toList.map fun text => text.toList.count '\n').sum := by
  rw [commentFeeds, commentTexts, List.map_append, List.sum_append, comments]
  congr 1
  induction line.items with
  | nil => rfl
  | cons item items ih =>
      rw [List.map_cons, List.sum_cons, ← ih]
      cases item <;> simp [Item.comment?, Item.commentFeeds, List.filterMap_cons]

theorem count_parts (texts : List String) :
    (" ".intercalate texts).toList.count '\n' = (texts.map fun text => text.toList.count '\n').sum := by
  cases texts with
  | nil => simp
  | cons text texts =>
      rw [toList_intercalate_cons, List.count_append, List.map_cons, List.sum_cons]
      congr 1
      induction texts with
      | nil => rfl
      | cons next texts ih =>
          rw [List.map_cons, List.sum_cons, ← ih]
          simp [spaced]

/-- A checked line has no line feeds in its text but those of its comments. -/
theorem count_text {line : Line} (hchecked : line.Checked)
    (hnames : ∀ name ∈ line.names, ParameterIndex.IsName name) :
    line.text.toList.count '\n' = line.commentFeeds := by
  have hmark : ((if line.deleted then ["/"] else []).map fun text => text.toList.count '\n').sum = 0 := by
    split <;> decide
  have hnumber : ((line.number.map fun n => "N" ++ n.text).toList.map
      fun text => text.toList.count '\n').sum = 0 := by
    cases line.number with
    | none => rfl
    | some n => simpa [List.count_cons] using Text.count_feed_of_any n.any_isLineEnd
  have hitems : ((line.items.map Item.text).map fun text => text.toList.count '\n') =
      line.items.map Item.commentFeeds := by
    rw [List.map_map]
    apply List.map_congr_left
    intro item hitem
    exact Item.count_text (hchecked.items item hitem)
      fun name hname => hnames name (List.mem_flatMap.mpr ⟨item, hitem, hname⟩)
  rw [text, count_parts, parts, List.map_append, List.map_append, List.map_append, List.sum_append,
    List.sum_append, List.sum_append, hmark, hnumber, hitems, commentFeeds_eq]
  cases line.comment with
  | none => simp
  | some text =>
      by_cases hempty : text.isEmpty = true
      · simp [String.isEmpty_iff.mp hempty]
      · simp [hempty]

end Line

/-! ## Programs -/

theorem Text.count_feed_intercalate (texts : List (List Char)) :
    (['\n'].intercalate texts).count '\n' + 1 ≤ (texts.map (List.count '\n')).sum + max 1 texts.length := by
  induction texts with
  | nil => simp
  | cons cs texts ih =>
      cases texts with
      | nil => simp
      | cons ds texts =>
          rw [List.intercalate_cons_cons, List.map_cons, List.sum_cons]
          simp only [List.count_append, List.count_singleton_self, List.length_cons] at ih ⊢
          omega

/-- The text of a program has at most as many lines as the program, and one more for each line feed in a
comment. -/
theorem Program.length_textLines_le {program : Program}
    (h : ∀ line ∈ program.lines, line.Built ∧ ∀ name ∈ line.names, ParameterIndex.IsName name) :
    (∀ line ∈ program.lines, line.text.toList.count '\n' = line.commentFeeds) ∧
      (textLines program.text).length ≤
        program.lines.length + (program.lines.map Line.commentFeeds).sum := by
  have hcount : ∀ line ∈ program.lines, line.text.toList.count '\n' = line.commentFeeds :=
    fun line hline => Line.count_text (h line hline).1.checked (h line hline).2
  refine ⟨hcount, ?_⟩
  cases hlines : program.lines with
  | nil => simp [textLines, text, hlines, Text.lines]
  | cons first rest =>
      have hfeeds : ((program.lines.map Line.text).map String.toList).map (List.count '\n') =
          program.lines.map Line.commentFeeds := by
        rw [List.map_map, List.map_map]
        exact List.map_congr_left hcount
      have htext : program.text.toList =
          ['\n'].intercalate ((program.lines.map Line.text).map String.toList) := String.toList_intercalate
      have hle := Text.length_lines_le program.text.toList
      have hjoin := Text.count_feed_intercalate ((program.lines.map Line.text).map String.toList)
      rw [← htext, hfeeds] at hjoin
      simp only [hlines, List.length_map, List.length_cons] at hjoin ⊢
      rw [textLines, List.length_map]
      omega

/-- A name of a parameter, and a line feed in an inline comment. -/
theorem Program.length_textLines_le_inline :
    ∃ program : Program, (∀ line ∈ program.lines, line.Built ∧
        ∀ name ∈ line.names, ParameterIndex.IsName name) ∧ program.text = "X#<t> (a\nb)\n; c" ∧
      (∀ line ∈ program.lines, line.text.toList.count '\n' = line.commentFeeds) ∧
      (textLines program.text).length ≤
        program.lines.length + (program.lines.map Line.commentFeeds).sum := by
  have hword : Word.make 'x' (.parameter (.named "t")) = .ok ⟨'X', .parameter (.named "t")⟩ := rfl
  have hinline : Comment.make "a\nb" = .ok ⟨"a\nb"⟩ := by decide +kernel
  have hset : ({} : Line).setComment (some "c") = .ok { comment := some "c" } := by decide +kernel
  have hname : ParameterIndex.IsName "t" := by decide +kernel
  have hbuilt : ∀ line ∈ [((({} : Line).push (.word ⟨'X', .parameter (.named "t")⟩)).push
      (.comment ⟨"a\nb"⟩)), { comment := some "c" }],
      line.Built ∧ ∀ name ∈ line.names, ParameterIndex.IsName name := by
    rw [List.forall_mem_cons, List.forall_mem_singleton]
    refine ⟨⟨.push (.push .empty (.word hword)) (.comment hinline), ?_⟩, .setComment .empty hset, ?_⟩
    · simpa [Line.names, Line.push, Item.names, RealValue.names, ParameterIndex.names] using hname
    · simp [Line.names]
  exact ⟨⟨_⟩, hbuilt, by decide +kernel, Program.length_textLines_le hbuilt⟩

/-- The check of a comment lets a line feed through, and what stands behind it reads as a line of its
own. -/
theorem Line.exists_setComment_feed :
    ∃ line, ({} : Line).setComment (some "a\nG0") = .ok line ∧ line.Built ∧
      '\n' ∈ line.text.toList ∧ (textLines (Program.mk [line]).text).length = 2 ∧
      readProgram (Program.mk [line]).text =
        .ok ⟨[{ comment := some "a" }, { items := [.word ⟨'G', .literal (.integer 0)⟩] }]⟩ := by
  have hset : ({} : Line).setComment (some "a\nG0") = .ok { comment := some "a\nG0" } := by
    decide +kernel
  exact ⟨_, hset, .setComment .empty hset, by decide +kernel, by decide +kernel, by decide +kernel⟩

end GCode
