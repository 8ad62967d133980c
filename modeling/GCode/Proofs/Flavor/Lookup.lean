import GCode.Proofs.Flavor.Canonical
import GCode.Proofs.Flavor.Loading

/-!
# Looking words up

A word finds the entry of the code that is defined with its letter and with a number equal to its value,
however the two numbers are spelled.
-/

namespace GCode

/-! ## What a word asks for -/

namespace CodeDefinition

/-- The definition is of a code with this letter and a number equal to this value. -/
def Numbered (definition : CodeDefinition) (letter : Char) (x : Float) : Prop :=
  ∃ c digits, Text.trim definition.code.toList = c :: digits ∧ c.toUpper = letter ∧
    Code.isNumber digits = true ∧ (Code.float digits == x) = true

/-- The definition is of this letter alone. -/
def Bare (definition : CodeDefinition) (letter : Char) : Prop :=
  ∃ c, Text.trim definition.code.toList = [c] ∧ c.toUpper = letter

/-- A `G` or `M` word selects by its letter and its value, which must be literal, any other word by its
letter alone. -/
inductive SelectedBy (definition : CodeDefinition) (word : Word) : Prop where
  | code {number : Number} (hletter : isCodeLetter word.letter = true)
      (hvalue : word.value.literal? = some number) (h : definition.Numbered word.letter number.value)
  | letter (hletter : isCodeLetter word.letter = false) (h : definition.Bare word.letter)

end CodeDefinition

/-- The entry of the defined code, with what the definition says of it. -/
structure CodeEntry.DefinedBy (entry : CodeEntry) (definition : CodeDefinition) : Prop where
  code : Code.normalize definition.code = .ok entry.code
  meaning : entry.meaning = definition.meaning
  doc : entry.doc = definition.doc

/-- The code that a word is looked up by. -/
def Word.key? (word : Word) : Option String :=
  if word.selectsCode then word.code? else some word.letter.toString

namespace CodeDefinition

variable {definition : CodeDefinition} {code : String} {word : Word}

theorem numbered_iff (h : Code.normalize definition.code = .ok code) {letter : Char} {x : Float} :
    definition.Numbered letter x ↔ code = letter.toString ++ (Number.normalized x).text := by
  obtain ⟨c, digits, htrim, _, hcode⟩ := Code.normalize_eq_ok_iff.mp h
  simp only [Numbered, htrim, List.cons.injEq]
  constructor
  · rintro ⟨_, _, ⟨rfl, rfl⟩, hletter, hnumber, hvalue⟩
    rcases hcode with ⟨rfl, _⟩ | ⟨_, rfl⟩
    · cases hnumber
    · exact Code.canonical_eq_iff.mpr ⟨hletter, hvalue⟩
  · intro hkey
    rcases hcode with ⟨_, rfl⟩ | ⟨hnumber, rfl⟩
    · have hnil : (Number.normalized x).text = "" := by
        simpa using (congrArg (fun s : String => s.toList.tail) hkey).symm
      exact absurd hnil (Number.text_ne_empty _)
    · obtain ⟨hletter, hvalue⟩ := Code.canonical_eq_iff.mp hkey
      exact ⟨c, digits, ⟨rfl, rfl⟩, hletter, hnumber, hvalue⟩

theorem bare_iff (h : Code.normalize definition.code = .ok code) {letter : Char} :
    definition.Bare letter ↔ code = letter.toString := by
  obtain ⟨c, digits, htrim, _, hcode⟩ := Code.normalize_eq_ok_iff.mp h
  simp only [Bare, htrim, List.cons.injEq]
  constructor
  · rintro ⟨_, ⟨rfl, rfl⟩, rfl⟩
    rcases hcode with ⟨_, rfl⟩ | ⟨hnumber, _⟩
    · rfl
    · cases hnumber
  · intro hkey
    rcases hcode with ⟨rfl, rfl⟩ | ⟨_, rfl⟩
    · exact ⟨c, ⟨rfl, rfl⟩, by simpa [← String.toList_inj] using hkey⟩
    · exact absurd hkey Code.canonical_ne_bare

theorem selectedBy_iff (h : Code.normalize definition.code = .ok code) :
    definition.SelectedBy word ↔ word.key? = some code := by
  rw [Word.key?, Word.code?, Word.selectsCode]
  cases hletter : isCodeLetter word.letter with
  | true =>
      simp only [↓reduceIte, Option.map_eq_some_iff]
      constructor
      · rintro (⟨_, hvalue, hnumbered⟩ | ⟨hbare, _⟩)
        · exact ⟨_, hvalue, ((numbered_iff h).mp hnumbered).symm⟩
        · cases hletter.symm.trans hbare
      · rintro ⟨number, hvalue, hcode⟩
        exact .code hletter hvalue ((numbered_iff h).mpr hcode.symm)
  | false =>
      simp only [Bool.false_eq_true, ↓reduceIte, Option.some.injEq]
      constructor
      · rintro (⟨hcode, _, _⟩ | ⟨_, hbare⟩)
        · cases hletter.symm.trans hcode
        · exact ((bare_iff h).mp hbare).symm
      · intro hcode
        exact .letter hletter ((bare_iff h).mpr hcode.symm)

end CodeDefinition

/-! ## What the table holds -/

namespace Flavor

variable {flavor : Flavor} {definition : FlavorDefinition} {word : Word}

theorem entryOf_eq (flavor : Flavor) (word : Word) :
    flavor.entryOf word = word.key?.bind flavor.codes.get? := by
  rw [entryOf, Word.key?]
  cases hselects : word.selectsCode with
  | true => cases word.code? <;> rfl
  | false =>
      have hnone : word.code? = none := by rw [Word.code?, hselects, if_neg Bool.false_ne_true]
      rw [hnone]
      rfl

/-- But for their links, the entries are those that the definitions make. -/
theorem mem_unlinked_iff (h : load definition = .ok flavor) {entry : CodeEntry} :
    entry ∈ flavor.codes.unlinked ↔ ∃ defined ∈ definition.codes, defined.entry = .ok entry := by
  obtain ⟨table, htable, hunlinked, _⟩ := exists_table_of_load h
  obtain ⟨entries, hmake, _, rfl⟩ := CodeTable.ofDefinitions_eq_ok_iff.mp htable
  have hmade : .ok entry ∈ definition.codes.map CodeDefinition.entry ↔ entry ∈ entries := by
    rw [hmake]
    simp
  rw [hunlinked, ← List.mem_map, hmade]
  exact List.mem_mergeSort

theorem nodup_codes_of_load (h : load definition = .ok flavor) : flavor.codes.codes.Nodup := by
  obtain ⟨_, hdefined, hcodes, _⟩ := load_eq_ok h
  rw [hcodes]
  exact hdefined.nodup

theorem isSome_get?_iff (h : load definition = .ok flavor) {code : String} :
    (flavor.codes.get? code).isSome = true ↔
      ∃ defined ∈ definition.codes, Code.normalize defined.code = .ok code := by
  rw [CodeTable.isSome_get?, ← CodeTable.map_code_unlinked, List.mem_map]
  simp only [mem_unlinked_iff h, CodeDefinition.entry, map_eq_ok_iff]
  constructor
  · rintro ⟨_, ⟨defined, hdefined, _, hcode, rfl⟩, rfl⟩
    exact ⟨defined, hdefined, hcode⟩
  · rintro ⟨defined, hdefined, hcode⟩
    exact ⟨_, ⟨defined, hdefined, code, hcode, rfl⟩, rfl⟩

theorem normalize_of_load (h : load definition = .ok flavor) {defined : CodeDefinition}
    (hdefined : defined ∈ definition.codes) : ∃ code, Code.normalize defined.code = .ok code := by
  obtain ⟨_, hlisted, _, _⟩ := load_eq_ok h
  obtain ⟨entry, _, hentry⟩ :=
    List.mem_map.mp (hlisted.listed.mem_iff.mpr (List.mem_map_of_mem hdefined))
  exact ⟨entry.code, hentry.symm⟩

/-- A definition is found by its code. -/
theorem get?_of_definition (h : load definition = .ok flavor) {defined : CodeDefinition} {code : String}
    (hdefined : defined ∈ definition.codes) (hcode : Code.normalize defined.code = .ok code) :
    ∃ entry, flavor.codes.get? code = some entry ∧ entry.DefinedBy defined := by
  have hmade : ({ code, meaning := defined.meaning, doc := defined.doc } : CodeEntry) ∈
      flavor.codes.unlinked := by
    rw [mem_unlinked_iff h]
    exact ⟨defined, hdefined, by rw [CodeDefinition.entry, hcode]; rfl⟩
  obtain ⟨entry, hentry, hunlinked⟩ := List.mem_map.mp hmade
  obtain ⟨found, hfound⟩ := Option.isSome_iff_exists.mp ((isSome_get?_iff h).mpr ⟨defined, hdefined, hcode⟩)
  have hsame : found.code = entry.code := by
    rw [CodeTable.code_of_get? hfound]
    exact (congrArg CodeEntry.code hunlinked).symm
  have heq : found = entry := List.inj_on_of_nodup_map (nodup_codes_of_load h)
    (List.mem_of_find?_eq_some hfound) hentry hsame
  refine ⟨found, hfound, ?_, ?_, ?_⟩
  · rw [CodeTable.code_of_get? hfound, hcode]
  · rw [heq]
    exact congrArg CodeEntry.meaning hunlinked
  · rw [heq]
    exact congrArg CodeEntry.doc hunlinked

/-- A word finds an entry exactly if some definition is selected by it, and then the entry is that of the
definition. A `G` or `M` word without a literal value selects none. -/
theorem entryOf_selects (h : load definition = .ok flavor) (word : Word) :
    ((flavor.entryOf word).isSome = true ↔ ∃ defined ∈ definition.codes, defined.SelectedBy word) ∧
      ∀ defined ∈ definition.codes, defined.SelectedBy word →
        ∃ entry ∈ flavor.codes.entries, flavor.entryOf word = some entry ∧ entry.DefinedBy defined := by
  have hselected : ∀ defined ∈ definition.codes, defined.SelectedBy word →
      ∃ entry ∈ flavor.codes.entries, flavor.entryOf word = some entry ∧ entry.DefinedBy defined := by
    intro defined hdefined hselects
    obtain ⟨code, hcode⟩ := normalize_of_load h hdefined
    obtain ⟨entry, hentry, hby⟩ := get?_of_definition h hdefined hcode
    have hkey := (CodeDefinition.selectedBy_iff hcode).mp hselects
    exact ⟨entry, List.mem_of_find?_eq_some hentry, by rw [entryOf_eq, hkey, Option.bind_some, hentry], hby⟩
  refine ⟨⟨fun hsome => ?_, ?_⟩, hselected⟩
  · obtain ⟨entry, hentry⟩ := Option.isSome_iff_exists.mp hsome
    rw [entryOf_eq, Option.bind_eq_some_iff] at hentry
    obtain ⟨code, hkey, hentry⟩ := hentry
    obtain ⟨defined, hdefined, hcode⟩ := (isSome_get?_iff h).mp (Option.isSome_of_eq_some hentry)
    exact ⟨defined, hdefined, (CodeDefinition.selectedBy_iff hcode).mpr hkey⟩
  · rintro ⟨defined, hdefined, hselects⟩
    obtain ⟨_, _, hentry, _⟩ := hselected defined hdefined hselects
    rw [hentry]
    rfl

/-- `G-0.0` finds the entry of `G0`. -/
theorem entryOf_selects_negative_zero :
    load sample = .ok sampleFlavor ∧
      ∃ entry ∈ sampleFlavor.codes.entries,
        sampleFlavor.entryOf ⟨'G', .literal (.decimal (-0.0))⟩ = some entry ∧
          entry.DefinedBy ⟨"G0", "rapid", none⟩ := by
  refine ⟨load_sample, ?_⟩
  apply (entryOf_selects load_sample ⟨'G', .literal (.decimal (-0.0))⟩).2 ⟨"G0", "rapid", none⟩ (by decide)
  exact .code rfl rfl ⟨'G', ['0'], by decide +kernel, by decide, by decide, by decide +kernel⟩

end Flavor

end GCode
