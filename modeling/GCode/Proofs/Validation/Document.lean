import GCode.Proofs.Program.Reading
import GCode.Proofs.Scanning.Blank
import GCode.Validation

/-!
# Documents and programs

A document is checked text by text, like a program, but a text that is no line is reported and the next one
is looked at. The two differ on blank texts: a program leaves all of them out, and a document reads them.
-/

namespace GCode.Validation

open Reader

variable {flavor : Flavor}

/-! ## The diagnostics of every text -/

/-- What is wrong with a numbered text. -/
def diagnosticsOf (flavor : Flavor) (entry : String × Nat) : List Diagnostic :=
  match readLine entry.1 with
  | .ok l => (line entry.2 l flavor).diagnostics
  | .error e => [⟨entry.2, e.message, .error⟩]

theorem diagnostics_textsFrom (flavor : Flavor) (number : Nat) (texts : List String) :
    (textsFrom flavor number texts).diagnostics =
      (texts.zipIdx number).flatMap (diagnosticsOf flavor) := by
  induction texts generalizing number with
  | nil => rfl
  | cons text texts ih =>
      rw [textsFrom, Report.diagnostics_append, ih, List.zipIdx_cons, List.flatMap_cons, diagnosticsOf]
      cases readLine text <;> rfl

theorem diagnosticsOf_of_isBlank {entry : String × Nat} (h : isBlank entry.1 = true) :
    diagnosticsOf flavor entry = [] ↔ ∀ c ∈ (lineText entry.1).toList, c = ' ' ∨ c = '\t' := by
  simp only [← isGap_iff]
  rw [diagnosticsOf]
  cases hread : readLine entry.1 with
  | ok l =>
      obtain ⟨rfl, hgap⟩ := (readLine_of_isBlank h).mp hread
      exact ⟨fun _ => hgap, fun _ => rfl⟩
  | error e =>
      constructor
      · intro hnil
        cases hnil
      · intro hgap
        have hok := (readLine_of_isBlank h).mpr ⟨rfl, hgap⟩
        rw [hread] at hok
        cases hok

/-! ## Programs -/

theorem flatMap_filter_sublist {α β : Type} (l : List α) (p : α → Bool) (f : α → List β) :
    ((l.filter p).flatMap f).Sublist (l.flatMap f) := by
  induction l with
  | nil => exact .refl _
  | cons a l ih =>
      rw [List.filter_cons]
      split
      · exact (List.Sublist.refl _).append ih
      · exact ih.trans (List.sublist_append_right _ _)

/-- Members that are left out do not show only if they give nothing. -/
theorem flatMap_eq_flatMap_filter_iff {α β : Type} {l : List α} {p : α → Bool} {f : α → List β} :
    l.flatMap f = (l.filter p).flatMap f ↔ ∀ a ∈ l, p a = false → f a = [] := by
  induction l with
  | nil => simp
  | cons a l ih =>
      cases hp : p a with
      | true => simp [hp, ih]
      | false =>
          simp only [List.flatMap_cons, List.filter_cons, hp, Bool.false_eq_true, ↓reduceIte,
            List.forall_mem_cons, forall_const, ← ih]
          constructor
          · intro h
            have hle := (flatMap_filter_sublist l p f).length_le
            have hlen := congrArg List.length h
            rw [List.length_append] at hlen
            have hnil : f a = [] := List.length_eq_zero_iff.mp (by omega)
            exact ⟨hnil, by simpa [hnil] using h⟩
          · rintro ⟨hnil, h⟩
            rw [hnil, List.nil_append, h]

/-- What is wrong with the lines that were read, each under the number of its text. -/
def readDiagnostics (flavor : Flavor) (entries : List (String × Nat)) (lines : List Line) :
    List Diagnostic :=
  (List.zipWith (fun entry l => (line entry.2 l flavor).diagnostics) entries lines).flatten

theorem flatMap_diagnosticsOf {entries : List (String × Nat)} {lines : List Line}
    (h : List.Forall₂ (fun entry l => readLine entry.1 = .ok l) entries lines) :
    entries.flatMap (diagnosticsOf flavor) = readDiagnostics flavor entries lines := by
  induction h with
  | nil => rfl
  | cons hread _ ih =>
      rw [List.flatMap_cons, ih, diagnosticsOf, hread]
      rfl

/-- A document that can be read as a program has the diagnostics of the lines that were read, unless a blank
text of it has blanks other than spaces and tabs. A document that cannot be read as a program has an
error at the text where the reading stops. -/
theorem document_agrees (text : String) (flavor : Flavor) :
    (∀ program, readProgram text = .ok program →
      List.Forall₂ (fun entry l => readLine entry.1 = .ok l) (numbered 1 (textLines text)) program.lines ∧
        ((document text flavor).diagnostics =
            readDiagnostics flavor (numbered 1 (textLines text)) program.lines ↔
          ∀ t ∈ textLines text, isBlank t = true → ∀ c ∈ (lineText t).toList, c = ' ' ∨ c = '\t')) ∧
      ∀ e, readProgram text = .error e →
        ⟨e.number, e.cause.message, .error⟩ ∈ (document text flavor).diagnostics := by
  rw [document, diagnostics_textsFrom]
  refine ⟨fun program h => ?_, fun e h => ?_⟩
  · have hlines := readProgram_eq_ok_iff.mp h
    refine ⟨hlines, ?_⟩
    rw [← flatMap_diagnosticsOf hlines, numbered, flatMap_eq_flatMap_filter_iff]
    constructor
    · intro hnil t ht hblank
      rw [← List.zipIdx_map_fst 1 (textLines text)] at ht
      obtain ⟨entry, hentry, rfl⟩ := List.mem_map.mp ht
      exact (diagnosticsOf_of_isBlank hblank).mp (hnil entry hentry (by rw [hblank]; rfl))
    · intro hgap entry hentry hleft
      have hblank : isBlank entry.1 = true := by simpa using hleft
      exact (diagnosticsOf_of_isBlank hblank).mpr (hgap _ (List.fst_mem_of_mem_zipIdx hentry) hblank)
  · obtain ⟨hmem, hread⟩ := exists_of_readProgram_eq_error h
    refine List.mem_flatMap.mpr ⟨_, List.mem_of_mem_filter hmem, ?_⟩
    rw [diagnosticsOf, hread]
    exact List.mem_singleton_self _

/-- Two lines with a blank one between them, and a text that stops at its third line. -/
theorem document_agrees_blank_between :
    (∃ program, readProgram "F1 F2\n \t\r\nX1 G4 X2" = .ok program ∧
      (document "F1 F2\n \t\r\nX1 G4 X2" default).diagnostics =
        readDiagnostics default [("F1 F2", 1), ("X1 G4 X2", 3)] program.lines) ∧
      ∃ e, readProgram "F1\n\nX@" = .error e ∧ e.number = 3 ∧
        ⟨3, e.cause.message, .error⟩ ∈ (document "F1\n\nX@" default).diagnostics := by
  have hread : readProgram "F1 F2\n \t\r\nX1 G4 X2" = .ok ⟨[
      { items := [.word ⟨'F', .literal (.integer 1)⟩, .word ⟨'F', .literal (.integer 2)⟩] },
      { items := [.word ⟨'X', .literal (.integer 1)⟩, .word ⟨'G', .literal (.integer 4)⟩,
          .word ⟨'X', .literal (.integer 2)⟩] }]⟩ := by
    decide +kernel
  have hfail : readProgram "F1\n\nX@" =
      .error ⟨3, "X@", .lexical (.unexpectedCharacter 1 '@')⟩ := by
    decide +kernel
  have hlines : textLines "F1 F2\n \t\r\nX1 G4 X2" = ["F1 F2", " \t", "X1 G4 X2"] := by decide +kernel
  have hblank : ∀ t ∈ textLines "F1 F2\n \t\r\nX1 G4 X2", isBlank t = true →
      ∀ c ∈ (lineText t).toList, c = ' ' ∨ c = '\t' := by
    rw [hlines, List.forall_mem_cons, List.forall_mem_cons, List.forall_mem_singleton]
    refine ⟨fun hfirst => ?_, fun _ => ?_, fun hlast => ?_⟩
    · cases hfirst
    · rw [show lineText " \t" = " \t" from by decide +kernel]
      simp
    · cases hlast
  obtain ⟨_, hsame⟩ := (document_agrees _ default).1 _ hread
  exact ⟨⟨_, hread, hsame.mpr hblank⟩, ⟨_, hfail, rfl, (document_agrees _ default).2 _ hfail⟩⟩

/-- A program leaves out the line with a no-break space, and a document reports it. -/
theorem document_noBreakSpace :
    readProgram "\u00a0" = .ok ⟨[]⟩ ∧
      (document "\u00a0" default).diagnostics =
        [⟨1, "unexpected character '\u00a0' at position 0", .error⟩] := by
  decide +kernel

end GCode.Validation
