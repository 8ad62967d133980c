import GCode.Command.Annotate
import GCode.Proofs.Flavor.Registry
import GCode.Proofs.Result
import Mathlib.Data.List.Basic

/-!
# Every finding is printed

The check of a program numbers what it finds, and the command looks the numbers up again to print each
finding below its line. Every finding carries the number of the line that was being checked, so the
findings of the lines, one line after the other, are all findings in their order. What is printed is every
line with its words and with its own findings below.
-/

namespace GCode

namespace Report

variable {number other : Nat} {report : Report}

/-- Everything in the report is about the line with this number. -/
def Numbered (number : Nat) (report : Report) : Prop :=
  ∀ diagnostic ∈ report.diagnostics, diagnostic.line = number

theorem Numbered.empty (number : Nat) : Numbered number {} := by
  simp [Numbered]

theorem Numbered.add (h : report.Numbered number) (severity : Severity) (message : String) :
    (report.add severity number message).Numbered number := by
  intro diagnostic hmem
  rw [diagnostics_add, List.mem_append, List.mem_singleton] at hmem
  rcases hmem with hmem | rfl
  · exact h diagnostic hmem
  · rfl

theorem ofLine_append (a b : Report) (number : Nat) :
    (a ++ b).ofLine number = a.ofLine number ++ b.ofLine number := by
  rw [ofLine, diagnostics_append, List.filter_append]
  rfl

theorem Numbered.ofLine_self (h : report.Numbered number) : report.ofLine number = report.diagnostics := by
  apply List.filter_eq_self.mpr
  intro diagnostic hmem
  simpa using h diagnostic hmem

theorem Numbered.ofLine_of_ne (h : report.Numbered number) (hne : other ≠ number) :
    report.ofLine other = [] := by
  apply List.filter_eq_nil_iff.mpr
  intro diagnostic hmem
  rw [h diagnostic hmem]
  simpa using hne.symm

theorem isValid_iff : report.isValid = true ↔ ∀ diagnostic ∈ report.diagnostics, diagnostic.severity ≠ .error := by
  simp [isValid]

end Report

namespace Validation

variable {flavor : Flavor} {number : Nat} {state : State}

/-! ## What is found on one line -/

theorem numbered_checkLetter (h : state.report.Numbered number) (word : Word) :
    (checkLetter number state word).report.Numbered number := by
  unfold checkLetter
  split
  · exact h.add _ _
  · exact h

theorem numbered_checkGroup (h : state.report.Numbered number) (code : String) (id : ModalGroupId) :
    (checkGroup flavor number state code id).report.Numbered number := by
  unfold checkGroup
  split
  · exact h.add _ _
  · exact h

theorem numbered_checkCode (h : state.report.Numbered number) (word : Word) :
    (checkCode flavor number state word).report.Numbered number := by
  unfold checkCode
  split
  · exact h.add _ _
  · split
    · exact h.add _ _
    · split
      · exact h
      · split
        · exact h
        · exact numbered_checkGroup h _ _

theorem numbered_checkWord (h : state.report.Numbered number) (word : Word) :
    (checkWord flavor number state word).report.Numbered number := by
  unfold checkWord
  split
  · exact numbered_checkCode h word
  · exact numbered_checkLetter h word

theorem numbered_foldl (h : state.report.Numbered number) (words : List Word) :
    (words.foldl (checkWord flavor number) state).report.Numbered number := by
  induction words generalizing state with
  | nil => exact h
  | cons word words ih => exact ih (numbered_checkWord h word)

theorem numbered_line (number : Nat) (l : Line) (flavor : Flavor) : (line number l flavor).Numbered number := by
  have hstart : ({} : State).report.Numbered number := Report.Numbered.empty number
  have hwords : (l.words.foldl (checkWord flavor number) {}).report.Numbered number :=
    numbered_foldl hstart l.words
  unfold line
  split
  · exact hwords.add _ _
  · exact hwords

/-! ## What is found on all lines -/

theorem diagnostics_linesFrom (flavor : Flavor) (number : Nat) (lines : List Line) :
    (linesFrom flavor number lines).diagnostics =
      (lines.zipIdx number).flatMap fun entry => (line entry.2 entry.1 flavor).diagnostics := by
  induction lines generalizing number with
  | nil => rfl
  | cons l lines ih =>
      rw [linesFrom, Report.diagnostics_append, ih, List.zipIdx_cons, List.flatMap_cons]

theorem ofLine_linesFrom_of_lt {other : Nat} (h : other < number) (lines : List Line) :
    (linesFrom flavor number lines).ofLine other = [] := by
  induction lines generalizing number with
  | nil => rfl
  | cons l lines ih =>
      rw [linesFrom, Report.ofLine_append, (numbered_line number l flavor).ofLine_of_ne (Nat.ne_of_lt h)]
      exact ih (Nat.lt_succ_of_lt h)

/-- The numbers lead back to the lines. -/
theorem ofLine_linesFrom {lines : List Line} {l : Line} {i : Nat} (h : lines[i]? = some l) :
    (linesFrom flavor number lines).ofLine (number + i) = (line (number + i) l flavor).diagnostics := by
  induction lines generalizing number i with
  | nil => cases h
  | cons first lines ih =>
      rw [linesFrom, Report.ofLine_append]
      -- only the first line has the first number; all lines behind it have larger ones
      cases i with
      | zero =>
          obtain rfl : first = l := by simpa using h
          rw [Nat.add_zero, (numbered_line number first flavor).ofLine_self,
            ofLine_linesFrom_of_lt (Nat.lt_succ_self number), List.append_nil]
      | succ i =>
          rw [(numbered_line number first flavor).ofLine_of_ne (by omega), List.nil_append,
            show number + (i + 1) = number + 1 + i by omega]
          exact ih h

theorem ofLine_of_mem_zipIdx {lines : List Line} {entry : Line × Nat} (h : entry ∈ lines.zipIdx number) :
    (linesFrom flavor number lines).ofLine entry.2 = (line entry.2 entry.1 flavor).diagnostics := by
  obtain ⟨l, n⟩ := entry
  obtain ⟨hle, hget⟩ := List.mk_mem_zipIdx_iff_le_and_getElem?_sub.mp h
  have hfound : (linesFrom flavor number lines).ofLine (number + (n - number)) =
      (line (number + (n - number)) l flavor).diagnostics :=
    ofLine_linesFrom hget
  rwa [Nat.add_sub_cancel' hle] at hfound

theorem flatMap_ofLine_linesFrom (flavor : Flavor) (number : Nat) (lines : List Line) :
    (List.range lines.length).flatMap (fun i => (linesFrom flavor number lines).ofLine (number + i)) =
      (linesFrom flavor number lines).diagnostics := by
  calc (List.range lines.length).flatMap (fun i => (linesFrom flavor number lines).ofLine (number + i))
      = ((lines.zipIdx number).map Prod.snd).flatMap (linesFrom flavor number lines).ofLine := by
        rw [List.zipIdx_map_snd, List.range'_eq_map_range, List.flatMap_map]
    _ = (lines.zipIdx number).flatMap fun entry => (line entry.2 entry.1 flavor).diagnostics := by
        rw [List.flatMap_map]
        exact List.flatMap_congr fun entry hentry => ofLine_of_mem_zipIdx hentry
    _ = (linesFrom flavor number lines).diagnostics := (diagnostics_linesFrom flavor number lines).symm

theorem isValid_program_iff {program : Program} :
    (Validation.program program flavor).isValid = true ↔
      ∀ i l, program.lines[i]? = some l →
        ∀ diagnostic ∈ (line (i + 1) l flavor).diagnostics, diagnostic.severity ≠ .error := by
  rw [Report.isValid_iff, Validation.program, diagnostics_linesFrom]
  simp only [List.mem_flatMap]
  constructor
  · intro h i l hget diagnostic hmem
    exact h diagnostic ⟨(l, i + 1), List.mk_mem_zipIdx_iff_le_and_getElem?_sub.mpr ⟨by omega, hget⟩, hmem⟩
  · rintro h diagnostic ⟨⟨l, n⟩, hentry, hmem⟩
    obtain ⟨hle, hget⟩ := List.mk_mem_zipIdx_iff_le_and_getElem?_sub.mp hentry
    exact h (n - 1) l hget diagnostic (by rwa [Nat.sub_add_cancel hle])

end Validation

namespace Command

variable {files : FileSystem} {config : Config} {flavor : Flavor} {program : Program} {text : String}

/-! ## What is printed -/

/-- The severity and the message of a finding. -/
def findingText (diagnostic : Diagnostic) : String :=
  match diagnostic.severity with
  | .error => "  error: " ++ diagnostic.message ++ "\n"
  | .warning => "  warning: " ++ diagnostic.message ++ "\n"

/-- A word in a column of eight characters, and what is known about it. -/
def annotationText (found : Annotation) : String :=
  "  " ++ String.ofList (found.word.text.toList.rightpad 8 ' ') ++ " " ++ found.meaning?.getD "?" ++
    (match found.modalGroup with
      | some group => ", modal group " ++ group.id.text ++ ": " ++ group.meaning
      | none => "") ++
    (match found.executionGroup with
      | some group => ", execution order " ++ group.index.toNat.repr
      | none => "") ++ "\n"

/-- A line, its words, and what was found on it. -/
def blockText (flavor : Flavor) (number : Nat) (line : Line) : String :=
  line.text ++ "\n" ++ String.join ((flavor.annotate line).map annotationText) ++
    String.join ((Validation.line number line flavor).diagnostics.map findingText)

/-- The lines in their order. -/
def programText (flavor : Flavor) (program : Program) : String :=
  String.join ((program.lines.zipIdx 1).map fun entry => blockText flavor entry.2 entry.1)

theorem unlines_append (a b : List String) : unlines (a ++ b) = unlines a ++ unlines b := by
  rw [unlines, List.map_append, String.join_append]
  rfl

theorem unlines_cons (line : String) (lines : List String) :
    unlines (line :: lines) = line ++ "\n" ++ unlines lines := by
  rw [unlines, List.map_cons, String.join_cons]
  rfl

theorem unlines_map {α : Type} (f : α → String) (l : List α) :
    unlines (l.map f) = String.join (l.map fun a => f a ++ "\n") := by
  rw [unlines, List.map_map]
  rfl

theorem unlines_flatMap {α : Type} (f : α → List String) (l : List α) :
    unlines (l.flatMap f) = String.join (l.map fun a => unlines (f a)) := by
  induction l with
  | nil => rfl
  | cons a l ih => rw [List.flatMap_cons, unlines_append, ih, List.map_cons, String.join_cons]

theorem diagnosticLine_eq (diagnostic : Diagnostic) : diagnosticLine diagnostic ++ "\n" = findingText diagnostic := by
  rw [diagnosticLine, findingText]
  cases diagnostic.severity <;> simp

theorem annotationLine_eq (found : Annotation) : annotationLine found ++ "\n" = annotationText found := by
  rw [annotationLine, annotationText, notes, padded, List.rightpad]
  cases found.modalGroup <;> cases found.executionGroup <;> simp [← String.toList_inj]

theorem linesOutput_eq (flavor : Flavor) (report : Report) (number : Nat) (lines : List Line) :
    linesOutput flavor report number lines =
      (lines.zipIdx number).flatMap fun entry => lineOutput flavor report entry.2 entry.1 := by
  induction lines generalizing number with
  | nil => rfl
  | cons l lines ih => rw [linesOutput, ih, List.zipIdx_cons, List.flatMap_cons]

theorem unlines_linesOutput (flavor : Flavor) (program : Program) :
    unlines (linesOutput flavor (Validation.program program flavor) 1 program.lines) = programText flavor program := by
  rw [linesOutput_eq, unlines_flatMap, programText]
  refine congrArg String.join (List.map_congr_left fun entry hentry => ?_)
  rw [lineOutput, Validation.program, Validation.ofLine_of_mem_zipIdx hentry, unlines_append, unlines_cons,
    unlines_map, unlines_map, blockText]
  simp only [annotationLine_eq, diagnosticLine_eq]

/-! ## Runs of the command -/

/-- The configuration has a flavor, and its file is a program. -/
structure Config.Opens (files : FileSystem) (config : Config) (flavor : Flavor) (program : Program) : Prop where
  flavor : ∃ registry, config.registry files = .ok registry ∧ registry.activeFlavor? = some flavor
  program : ∃ text, files.read config.file = .ok text ∧ readProgram text = .ok program

theorem Config.registry_eq_ok {loaded registry : Registry}
    (hload : config.flavorDirectories.foldlM (loadFlavors files) Registry.withStandard = .ok loaded)
    (hactive : loaded.activate config.effectiveFlavor = (true, registry)) :
    config.registry files = .ok registry := by
  refine bind_eq_ok_iff.mpr ⟨loaded, hload, ?_⟩
  rw [hactive]
  rfl

theorem Config.Opens.unique {flavor' : Flavor} {program' : Program} (h : config.Opens files flavor program)
    (h' : config.Opens files flavor' program') : flavor = flavor' ∧ program = program' := by
  obtain ⟨⟨_, hregistry, hflavor⟩, _, hread, hprogram⟩ := h
  obtain ⟨⟨_, hregistry', hflavor'⟩, _, hread', hprogram'⟩ := h'
  cases hregistry.symm.trans hregistry'
  cases hread.symm.trans hread'
  exact ⟨Option.some.inj (hflavor.symm.trans hflavor'), Except.ok.inj (hprogram.symm.trans hprogram')⟩

theorem annotate_eq (h : readProgram text = .ok program) :
    annotate flavor text =
      ⟨if (Validation.program program flavor).isValid then 0 else 1, programText flavor program, ""⟩ := by
  rw [annotate, h, ← unlines_linesOutput]

theorem Config.Opens.runConfig_eq (h : config.Opens files flavor program) :
    runConfig files config =
      ⟨if (Validation.program program flavor).isValid then 0 else 1, programText flavor program, ""⟩ := by
  obtain ⟨⟨registry, hregistry, hflavor⟩, text, hread, hprogram⟩ := h
  simp only [runConfig, hregistry, hflavor, hread]
  exact annotate_eq hprogram

theorem opens_of_exitCode (h : (runConfig files config).exitCode = 0) :
    ∃ flavor program, config.Opens files flavor program := by
  unfold runConfig at h
  split at h
  · cases h
  · rename_i registry hregistry
    split at h
    · cases h
    · rename_i flavor hflavor
      split at h
      · cases h
      · rename_i text hread
        cases hprogram : readProgram text with
        | error e =>
            rw [annotate, hprogram] at h
            cases h
        | ok program => exact ⟨flavor, program, ⟨registry, hregistry, hflavor⟩, text, hread, hprogram⟩

theorem exitCode_runConfig_iff :
    (runConfig files config).exitCode = 0 ↔
      ∃ flavor program, config.Opens files flavor program ∧ (Validation.program program flavor).isValid = true := by
  constructor
  · intro h
    obtain ⟨flavor, program, hopens⟩ := opens_of_exitCode h
    rw [hopens.runConfig_eq] at h
    exact ⟨flavor, program, hopens, by simpa using h⟩
  · rintro ⟨flavor, program, hopens, hvalid⟩
    rw [hopens.runConfig_eq, if_pos hvalid]

/-- The findings of the lines, taken by number, are all findings in their order, and those with the number of a line
are the ones that were made on it. What is printed is every line with its words and with its own findings below. A run
succeeds exactly if the file is a program and nothing that was found in it is an error. -/
theorem findings_printed :
    (∀ (flavor : Flavor) (program : Program),
      (List.range program.lines.length).flatMap (fun i => (Validation.program program flavor).ofLine (i + 1)) =
          (Validation.program program flavor).diagnostics ∧
        (∀ i l, program.lines[i]? = some l →
          (Validation.program program flavor).ofLine (i + 1) = (Validation.line (i + 1) l flavor).diagnostics) ∧
        unlines (linesOutput flavor (Validation.program program flavor) 1 program.lines) =
          programText flavor program) ∧
    (∀ flavor text program, readProgram text = .ok program →
      (annotate flavor text).output = programText flavor program ∧ (annotate flavor text).errors = "") ∧
    (∀ files config flavor program, config.Opens files flavor program →
      (runConfig files config).output = programText flavor program ∧ (runConfig files config).errors = "") ∧
    ∀ files config, (runConfig files config).exitCode = 0 ↔
      ∃ flavor program, config.Opens files flavor program ∧
        ∀ i l, program.lines[i]? = some l →
          ∀ diagnostic ∈ (Validation.line (i + 1) l flavor).diagnostics, diagnostic.severity ≠ .error := by
  refine ⟨fun flavor program => ⟨?_, fun i l hl => ?_, unlines_linesOutput flavor program⟩,
    fun flavor text program h => ?_, fun files config flavor program h => ?_, fun files config => ?_⟩
  · have hparts := Validation.flatMap_ofLine_linesFrom flavor 1 program.lines
    simpa only [Nat.add_comm 1, Validation.program] using hparts
  · have hfound : (Validation.program program flavor).ofLine (1 + i) = (Validation.line (1 + i) l flavor).diagnostics :=
      Validation.ofLine_linesFrom hl
    rwa [Nat.add_comm] at hfound
  · rw [annotate_eq h]
    exact ⟨rfl, rfl⟩
  · rw [h.runConfig_eq]
    exact ⟨rfl, rfl⟩
  · simp only [exitCode_runConfig_iff, Validation.isValid_program_iff]

/-- A flavor with one letter, and one code in no group. -/
def lathe : Flavor where
  name := "lathe"
  version := none
  description := none
  codes := ⟨[{ code := "G0", meaning := "rapid", doc := none }]⟩
  letters := [⟨'X', "x axis"⟩]
  modalGroups := []
  executionOrder := []
  parameters := []

def latheText : String :=
  "[flavor]\nname = \"lathe\"\n" ++
    "[[gcodes]]\ncode = \"G0\"\nmeaning = \"rapid\"\n" ++
    "[[letters]]\nletter = \"X\"\nmeaning = \"x axis\"\n"

def latheFiles : FileSystem where
  isDirectory := fun path => path = "flavors"
  names := fun _ => .ok ["lathe.toml"]
  read := fun path => if path = "flavors/lathe.toml" then .ok latheText else .ok "G0 X1\n\nX1 X2 G1\n"

def latheConfig : Config where
  file := "part.ngc"
  flavor := some "lathe"
  flavorDirectories := ["flavors"]
  logLevel := "warn"

/-- Nothing is found on the first line; an error and a warning are found on the second. -/
def latheProgram : Program where
  lines := [
    { items := [.word ⟨'G', .literal (.integer 0)⟩, .word ⟨'X', .literal (.integer 1)⟩] },
    { items := [.word ⟨'X', .literal (.integer 1)⟩, .word ⟨'X', .literal (.integer 2)⟩,
        .word ⟨'G', .literal (.integer 1)⟩] }]

theorem opens_lathe : latheConfig.Opens latheFiles lathe latheProgram := by
  have hnames : Registry.directoryNames latheFiles "flavors" = .ok ["lathe.toml"] := by decide
  have hpaths : Registry.directoryPaths latheFiles "flavors" = ["flavors/lathe.toml"] := by
    rw [Registry.directoryPaths, hnames]
    exact Registry.flavorPaths_eq (by decide) (by decide)
  have hflavors : Registry.directoryFlavors latheFiles "flavors" = [lathe] := by
    rw [Registry.directoryFlavors, hpaths]
    decide +kernel
  have hload : Config.loadFlavors latheFiles Registry.withStandard "flavors" =
      .ok (Registry.withStandard.add lathe) := by
    rw [Config.loadFlavors, Registry.loadDirectory_eq, hnames, hflavors]
    rfl
  have hget : (Registry.withStandard.add lathe).get? "lathe" = some lathe := Registry.get?_add_self _ lathe
  constructor
  · have hloaded : latheConfig.flavorDirectories.foldlM (Config.loadFlavors latheFiles) Registry.withStandard =
        .ok (Registry.withStandard.add lathe) := by
      rw [latheConfig, List.foldlM_cons, hload]
      rfl
    refine ⟨{ Registry.withStandard.add lathe with active := some "lathe" }, Config.registry_eq_ok hloaded ?_, hget⟩
    rw [latheConfig, Config.effectiveFlavor, Option.getD_some, Registry.activate, hget]
    rfl
  · exact ⟨_, rfl, by decide +kernel⟩

/-- What is found on the second line stands below it. -/
theorem findings_printed_lathe :
    (runConfig latheFiles latheConfig).exitCode ≠ 0 ∧
      (runConfig latheFiles latheConfig).output =
        "G0 X1\n  G0       rapid\n  X1       x axis\n" ++
          "X1 X2 G1\n  X1       x axis\n  X2       x axis\n  G1       ?\n" ++
          "  error: Word 'X' appears more than once\n  warning: Unknown code 'G1'\n" := by
  obtain ⟨_, _, hprinted, hexit⟩ := findings_printed
  obtain ⟨houtput, _⟩ := hprinted _ _ _ _ opens_lathe
  refine ⟨fun hzero => ?_, houtput.trans (by decide +kernel)⟩
  obtain ⟨flavor, program, hopens, hfree⟩ := (hexit _ _).mp hzero
  obtain ⟨rfl, rfl⟩ := hopens.unique opens_lathe
  exact hfree 1 _ rfl ⟨2, "Word 'X' appears more than once", .error⟩ (by decide +kernel) rfl

end Command

end GCode
