import GCode.Proofs.Printing.LineFeeds
import GCode.Proofs.Printing.RoundTrip
import GCode.Proofs.Program.Reading
import GCode.Proofs.Scanning.Blank

/-!
# Printed programs

The lines in the text of a program are the texts of its lines, and each reads as the line it was written
for. A line without parts has an empty text, and a reader passes over it.
-/

namespace GCode

/-! ## Lines -/

/-- A line that can be written so that it reads back, in one line of a text. -/
structure Line.Printable (line : Line) : Prop where
  shaped : line.Shaped Number.Finite
  comment : line.comment ≠ some ""
  feeds : ∀ text ∈ line.commentTexts, '\n' ∉ text.toList

namespace Line.Printable

variable {line : Line}

theorem parts (h : line.Printable) : Parts line.parts line.tokens :=
  Line.parts_tokens h.shaped h.comment

theorem readLine (h : line.Printable) : GCode.readLine line.text = .ok line :=
  h.parts.readLine (Line.derives h.shaped)

theorem feed_notMem (h : line.Printable) : '\n' ∉ line.text.toList := by
  have hnames : ∀ name ∈ line.names, ParameterIndex.IsName name := by
    intro name hname
    obtain ⟨item, hitem, hmem⟩ := List.mem_flatMap.mp hname
    exact (h.shaped.items item hitem).isName name hmem
  rw [← List.count_eq_zero, Line.count_text h.shaped.checked hnames]
  exact Line.commentFeeds_eq_zero_iff.mpr h.feeds

theorem isBlank_text (h : line.Printable) : Reader.isBlank line.text = decide (line.text = "") := by
  rw [Bool.eq_iff_iff, decide_eq_true_eq]
  constructor
  · intro hblank
    obtain ⟨rfl, _⟩ := (readLine_of_isBlank hblank).mp h.readLine
    rfl
  · intro hempty
    rw [hempty]
    rfl

end Line.Printable

/-! ## Programs -/

theorem Program.filter_textLines {program : Program} (h : ∀ line ∈ program.lines, line.Printable) :
    (textLines program.text).filter (fun text => !Reader.isBlank text) =
      (program.lines.map Line.text).filter fun text => !Reader.isBlank text := by
  have htext : program.text.toList =
      ['\n'].intercalate ((program.lines.map Line.text).map String.toList) := String.toList_intercalate
  have hlines : ∀ cs ∈ (program.lines.map Line.text).map String.toList,
      '\n' ∉ cs ∧ ∀ c ∈ cs.getLast?, Text.isLineEnd c = false := by
    simp only [List.forall_mem_map]
    exact fun line hline => ⟨(h line hline).feed_notMem, (h line hline).parts.back⟩
  have hfilter := Text.filter_lines_intercalate
    (p := fun cs => !Reader.isBlank (String.ofList cs)) rfl hlines
  rw [textLines, htext, List.filter_map]
  simp only [Function.comp_def, hfilter]
  rw [List.filter_map, List.map_map]
  simp [Function.comp_def]

/-- The text of a program reads as the program without its empty lines. -/
theorem readProgram_text {program : Program} (h : ∀ line ∈ program.lines, line.Printable) :
    readProgram program.text = .ok ⟨program.lines.filter fun line => line.text ≠ ""⟩ := by
  have hkept : (program.lines.map Line.text).filter (fun text => !Reader.isBlank text) =
      (program.lines.filter fun line => line.text ≠ "").map Line.text := by
    rw [List.filter_map]
    congr 1
    apply List.filter_congr
    intro line hline
    simp [(h line hline).isBlank_text]
  have hread : List.Forall₂ (fun text line => readLine text = .ok line)
      ((Reader.numbered 1 (textLines program.text)).map Prod.fst)
      (program.lines.filter fun line => line.text ≠ "") := by
    rw [Reader.map_fst_numbered, Program.filter_textLines h, hkept, List.forall₂_map_left_iff,
      List.forall₂_same]
    exact fun line hline => (h line (List.mem_filter.mp hline).1).readLine
  exact readProgram_eq_ok_iff.mpr (List.forall₂_map_left_iff.mp hread)

/-- Empty lines at both ends, carriage returns and a no-break space in comments. -/
theorem readProgram_text_returns :
    ∃ program : Program, (∀ line ∈ program.lines, line.Printable) ∧
      program.text = "\n/ X1 (a\r)\n; b\u00a0\rc\n" ∧ program.lines.length = 4 ∧
      readProgram program.text = .ok ⟨program.lines.filter fun line => line.text ≠ ""⟩ := by
  let word : Item := .word ⟨'X', .literal (.integer 1)⟩
  let lines : List Line :=
    [{}, { deleted := true, items := [word, .comment ⟨"a\r"⟩] }, { comment := some "b\u00a0\rc" }, {}]
  have hempty : Line.Printable {} :=
    ⟨⟨by simp, by simp, by simp⟩, by simp, by simp [Line.commentTexts, Line.comments]⟩
  have hword : word.Shaped Number.Finite :=
    ⟨by decide, by simp [RealValue.Shaped, Number.Finite]⟩
  have hitems : Line.Printable { deleted := true, items := [word, .comment ⟨"a\r"⟩] } := by
    refine ⟨⟨by simp, by simp, ?_⟩, by simp, by decide +kernel⟩
    exact List.forall_mem_cons.mpr ⟨hword, List.forall_mem_singleton.mpr ⟨by decide, by decide⟩⟩
  have hcomment : Line.Printable { comment := some "b\u00a0\rc" } := by
    have htrimmed : Text.Trimmed Text.isBlank "b\u00a0\rc".toList :=
      ⟨by rintro _ ⟨⟩; rfl, by rintro _ ⟨⟩; rfl⟩
    refine ⟨⟨by simp, ?_, by simp⟩, by decide, by decide +kernel⟩
    rintro _ ⟨⟩
    exact ⟨by decide, htrimmed⟩
  have hprintable : ∀ line ∈ lines, line.Printable := by
    simp only [lines, List.forall_mem_cons]
    exact ⟨hempty, hitems, hcomment, hempty, by simp⟩
  exact ⟨⟨lines⟩, hprintable, by decide +kernel, rfl, readProgram_text hprintable⟩

end GCode
