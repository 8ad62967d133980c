import GCode.Proofs.Flavor.Loading
import GCode.Validation
import Mathlib.Algebra.BigOperators.Group.Finset.Basic
import Mathlib.Algebra.GroupWithZero.Nat

/-!
# How many diagnostics a line has

The check of a line remembers letters and groups that it has seen. A word is an error exactly if its key
was seen before, so the errors count the repetitions, whatever the order of the words is.
-/

namespace GCode

/-! ## Repetitions -/

section Repeats

variable {κ : Type} [DecidableEq κ] {keys keys' : List κ} {k : κ}

/-- For each key its occurrences behind the first, all together. -/
def repeats (keys : List κ) : Nat :=
  ∑ k ∈ keys.toFinset, (keys.count k - 1)

@[simp] theorem repeats_nil : repeats ([] : List κ) = 0 := rfl

theorem repeats_add_card (keys : List κ) : repeats keys + keys.toFinset.card = keys.length := by
  have hcount : ∀ k ∈ keys.toFinset, 1 ≤ keys.count k := fun k hk =>
    List.one_le_count_iff.mpr (List.mem_toFinset.mp hk)
  calc repeats keys + keys.toFinset.card
      = ∑ k ∈ keys.toFinset, (keys.count k - 1 + 1) := by
        rw [repeats, Finset.card_eq_sum_ones, Finset.sum_add_distrib]
    _ = ∑ k ∈ keys.toFinset, keys.count k :=
        Finset.sum_congr rfl fun k hk => Nat.sub_add_cancel (hcount k hk)
    _ = keys.length := List.sum_toFinset_count_eq_length keys

theorem repeats_append_of_mem (h : k ∈ keys) : repeats (keys ++ [k]) = repeats keys + 1 := by
  have hcard : (keys ++ [k]).toFinset = keys.toFinset := by
    ext a
    simp only [List.mem_toFinset, List.mem_append, List.mem_singleton, or_iff_left_iff_imp]
    exact fun ha => ha ▸ h
  have hbefore := repeats_add_card keys
  have hafter := repeats_add_card (keys ++ [k])
  rw [hcard, List.length_append, List.length_singleton] at hafter
  omega

theorem repeats_append_of_notMem (h : k ∉ keys) : repeats (keys ++ [k]) = repeats keys := by
  have hcard : (keys ++ [k]).toFinset = insert k keys.toFinset := by
    ext a
    simp
  have hbefore := repeats_add_card keys
  have hafter := repeats_add_card (keys ++ [k])
  rw [hcard, Finset.card_insert_of_notMem (by simpa using h), List.length_append,
    List.length_singleton] at hafter
  omega

theorem repeats_perm (h : keys.Perm keys') : repeats keys = repeats keys' := by
  rw [repeats, repeats, List.toFinset_eq_of_perm _ _ h]
  exact Finset.sum_congr rfl fun k _ => by rw [h.count_eq]

/-- The keys can be looked for in any list that holds all of them. -/
theorem repeats_eq_sum {all : List κ} (hnodup : all.Nodup) (h : ∀ k ∈ keys, k ∈ all) :
    repeats keys = (all.map fun k => keys.count k - 1).sum := by
  rw [← List.sum_toFinset _ hnodup]
  refine Finset.sum_subset (fun k hk => ?_) fun k _ hk => ?_
  · exact List.mem_toFinset.mpr (h k (List.mem_toFinset.mp hk))
  · rw [List.count_eq_zero_of_not_mem (by simpa using hk), Nat.zero_sub]

end Repeats

/-! ## Counting diagnostics -/

namespace Report

/-- How many diagnostics have a severity. -/
def count (report : Report) (severity : Severity) : Nat :=
  report.diagnostics.countP fun diagnostic => diagnostic.severity = severity

@[simp] theorem count_empty (severity : Severity) : count {} severity = 0 := rfl

@[simp] theorem count_add (report : Report) (severity other : Severity) (n : Nat) (message : String) :
    (report.add other n message).count severity =
      report.count severity + if other = severity then 1 else 0 := by
  simp [count, List.countP_append, List.countP_singleton]

theorem isValid_eq (report : Report) : report.isValid = decide (report.count .error = 0) := by
  rw [isValid, Bool.eq_iff_iff]
  simp [count, List.countP_eq_zero]

end Report

namespace Validation

variable {flavor : Flavor} {state : State} {words words' : List Word} {word : Word}

/-! ## What is counted -/

/-- The letters of the words that select no code. -/
def letters (words : List Word) : List Char :=
  (words.filter fun word => !word.selectsCode).map Word.letter

/-- The number of the modal group of the code that a word selects. -/
def modalId? (flavor : Flavor) (word : Word) : Option ModalGroupId :=
  (word.code?.bind flavor.codes.get?).bind CodeEntry.modalGroup

/-- The groups of the codes that the words select. The group whose codes exclude nothing is left out. -/
def modalIds (flavor : Flavor) (words : List Word) : List ModalGroupId :=
  (words.filterMap (modalId? flavor)).filter (· ≠ nonModal)

/-- A `G` or `M` word of which the table knows nothing: its value is no literal, or its code is not in the
table. -/
def isUnknown (flavor : Flavor) (word : Word) : Bool :=
  word.selectsCode && (word.code?.bind flavor.codes.get?).isNone

/-- The codes of a line that share a group with an earlier code of the line. -/
def conflicts (flavor : Flavor) (words : List Word) : Nat :=
  ((flavor.modalGroups.filter fun group => group.id ≠ nonModal).map fun group =>
    words.countP (fun word => modalId? flavor word = some group.id) - 1).sum

/-- One, if a line has more `M` words than it may have. -/
def tooManyMWords (l : Line) : Nat :=
  if maxMWords < mWords l then 1 else 0

/-! ## One word -/

/-- What the check knows after words with these letters and groups, so many of them unknown: each
repetition is an error, and each unknown word a warning. -/
structure Counted (cs : List Char) (ids : List ModalGroupId) (unknown : Nat) (state : State) : Prop where
  mem_letters : ∀ c, c ∈ state.letters ↔ c ∈ cs
  mem_groups : ∀ id, id ∈ state.groups.map Prod.fst ↔ id ∈ ids
  errors : state.report.count .error = repeats cs + repeats ids
  warnings : state.report.count .warning = unknown

variable {cs : List Char} {ids : List ModalGroupId} {unknown : Nat}

theorem Counted.start (flavor : Flavor) :
    Counted (letters []) (modalIds flavor []) ([].countP (isUnknown flavor)) {} where
  mem_letters := by simp [letters]
  mem_groups := by simp [modalIds]
  errors := by simp [letters, modalIds]
  warnings := by simp

theorem Counted.warn (h : Counted cs ids unknown state) (number : Nat) (message : String) :
    Counted cs ids (unknown + 1) { state with report := state.report.add .warning number message } where
  mem_letters := h.mem_letters
  mem_groups := h.mem_groups
  errors := by simpa using h.errors
  warnings := by simpa using h.warnings

theorem Counted.checkLetter (h : Counted cs ids unknown state) (number : Nat) (word : Word) :
    Counted (cs ++ [word.letter]) ids unknown (Validation.checkLetter number state word) := by
  rw [Validation.checkLetter]
  split
  · rename_i hseen
    have hmem : word.letter ∈ cs := (h.mem_letters _).mp (by simpa using hseen)
    refine ⟨fun c => ?_, h.mem_groups, ?_, by simpa using h.warnings⟩
    · rw [h.mem_letters, List.mem_append, List.mem_singleton]
      exact ⟨.inl, Or.rec id fun hc => hc ▸ hmem⟩
    · rw [repeats_append_of_mem hmem, Report.count_add, if_pos rfl, h.errors]
      omega
  · rename_i hnew
    have hmem : word.letter ∉ cs := fun hc => hnew (by simpa using (h.mem_letters _).mpr hc)
    refine ⟨fun c => ?_, h.mem_groups, ?_, h.warnings⟩
    · rw [List.mem_cons, h.mem_letters, List.mem_append, List.mem_singleton, or_comm]
    · rw [repeats_append_of_notMem hmem, h.errors]

theorem Counted.checkGroup (h : Counted cs ids unknown state) (flavor : Flavor) (number : Nat)
    (code : String) (id : ModalGroupId) :
    Counted cs (ids ++ [id]) unknown (Validation.checkGroup flavor number state code id) := by
  -- the group moves to the front, which changes nothing about the others
  have hgroups : ∀ other, other ∈ ((id, code) :: state.groups.filter fun entry => entry.1 != id).map Prod.fst ↔
      other ∈ ids ++ [id] := by
    intro other
    rw [List.mem_append, ← h.mem_groups, List.mem_singleton]
    by_cases he : other = id
    · simp [he]
    · simp [he]
  rw [Validation.checkGroup]
  split
  · rename_i previous hseen
    have hmem : id ∈ ids := by
      obtain ⟨before, after, hsplit, -⟩ := List.lookup_eq_some_iff.mp hseen
      rw [← h.mem_groups, hsplit]
      simp
    refine ⟨h.mem_letters, hgroups, ?_, by simpa using h.warnings⟩
    rw [repeats_append_of_mem hmem, Report.count_add, if_pos rfl, h.errors]
    omega
  · rename_i hnew
    have hmem : id ∉ ids := by
      rw [← h.mem_groups, List.mem_map]
      rintro ⟨entry, hentry, rfl⟩
      simpa using List.lookup_eq_none_iff.mp hnew entry hentry
    refine ⟨h.mem_letters, hgroups, ?_, h.warnings⟩
    rw [repeats_append_of_notMem hmem, h.errors]

theorem Counted.checkCode (h : Counted cs (modalIds flavor words) unknown state) (number : Nat)
    (hword : word.selectsCode = true) :
    Counted cs (modalIds flavor (words ++ [word])) (unknown + (isUnknown flavor word).toNat)
      (Validation.checkCode flavor number state word) := by
  rw [Validation.checkCode]
  split
  · rename_i hcode
    simpa [modalIds, modalId?, isUnknown, hword, hcode] using h.warn number _
  · rename_i code hcode
    split
    · rename_i hget
      simpa [modalIds, modalId?, isUnknown, hword, hcode, hget] using h.warn number _
    · rename_i entry hget
      split
      · rename_i hnone
        simpa [modalIds, modalId?, isUnknown, hcode, hget, hnone] using h
      · rename_i id hsome
        split
        · rename_i hid
          simpa [modalIds, modalId?, isUnknown, hcode, hget, hsome, hid] using h
        · rename_i hid
          simpa [modalIds, modalId?, isUnknown, hcode, hget, hsome, hid] using
            h.checkGroup flavor number code id

theorem Counted.checkWord
    (h : Counted (letters words) (modalIds flavor words) (words.countP (isUnknown flavor)) state)
    (number : Nat) (word : Word) :
    Counted (letters (words ++ [word])) (modalIds flavor (words ++ [word]))
      ((words ++ [word]).countP (isUnknown flavor)) (Validation.checkWord flavor number state word) := by
  have hunknown : (words ++ [word]).countP (isUnknown flavor) =
      words.countP (isUnknown flavor) + (isUnknown flavor word).toNat := by
    cases hword : isUnknown flavor word <;> simp [List.countP_append, hword]
  rw [Validation.checkWord, hunknown]
  split
  · rename_i hword
    have hletters : letters (words ++ [word]) = letters words := by simp [letters, hword]
    rw [hletters]
    exact h.checkCode number hword
  · rename_i hword
    have hletters : letters (words ++ [word]) = letters words ++ [word.letter] := by
      simp [letters, hword]
    have hids : modalIds flavor (words ++ [word]) = modalIds flavor words := by
      simp [modalIds, modalId?, Word.code?, hword]
    rw [hletters, hids]
    simpa [isUnknown, hword] using h.checkLetter number word

/-! ## All words -/

theorem Counted.foldl
    (h : Counted (letters words) (modalIds flavor words) (words.countP (isUnknown flavor)) state)
    (number : Nat) (more : List Word) :
    Counted (letters (words ++ more)) (modalIds flavor (words ++ more))
      ((words ++ more).countP (isUnknown flavor)) (more.foldl (Validation.checkWord flavor number) state) := by
  induction more generalizing words state with
  | nil => simpa using h
  | cons word more ih => simpa using ih (h.checkWord number word)

theorem count_modalIds {id : ModalGroupId} (hid : id ≠ nonModal) (words : List Word) :
    (modalIds flavor words).count id = words.countP fun word => modalId? flavor word = some id := by
  rw [modalIds, List.count_filter (by simpa using hid), List.count, List.countP_filterMap]
  refine List.countP_congr fun word _ => ?_
  cases modalId? flavor word <;> simp

/-- The groups that codes are linked to are groups of the flavor, each with a number of its own. -/
theorem repeats_modalIds (h : flavor.Consistent) (words : List Word) :
    repeats (modalIds flavor words) = conflicts flavor words := by
  have hnodup : ((flavor.modalGroups.filter fun group => group.id ≠ nonModal).map ModalGroup.id).Nodup :=
    h.modalGroups.ids.sublist (List.filter_sublist.map _)
  have hlisted : ∀ id ∈ modalIds flavor words,
      id ∈ (flavor.modalGroups.filter fun group => group.id ≠ nonModal).map ModalGroup.id := by
    intro id hid
    obtain ⟨hsome, hne⟩ := List.mem_filter.mp hid
    obtain ⟨word, -, hword⟩ := List.mem_filterMap.mp hsome
    obtain ⟨entry, hentry, hmodal⟩ := Option.bind_eq_some_iff.mp hword
    obtain ⟨code, -, hget⟩ := Option.bind_eq_some_iff.mp hentry
    -- the link of a code leads to a group that lists the code
    have hmember := (h.modal.mem_iff code id).mpr (by simp [hget, hmodal])
    obtain ⟨group, hgroup, rfl, -⟩ := Flavor.mem_modalMembers_iff.mp hmember
    exact List.mem_map.mpr ⟨group, List.mem_filter.mpr ⟨hgroup, hne⟩, rfl⟩
  rw [repeats_eq_sum hnodup hlisted, conflicts, List.map_map]
  refine congrArg List.sum (List.map_congr_left fun group hgroup => ?_)
  rw [Function.comp_apply, count_modalIds (by simpa using (List.mem_filter.mp hgroup).2)]

theorem count_line_eq (h : flavor.Consistent) (number : Nat) (l : Line) :
    (line number l flavor).count .error =
        repeats (letters l.words) + conflicts flavor l.words + tooManyMWords l ∧
      (line number l flavor).count .warning = l.words.countP (isUnknown flavor) := by
  have hcounted := (Counted.start flavor).foldl number l.words
  rw [List.nil_append] at hcounted
  rw [← repeats_modalIds h, ← hcounted.errors, ← hcounted.warnings, line, tooManyMWords]
  split
  · simp
  · simp

theorem letters_perm (h : words.Perm words') : (letters words).Perm (letters words') :=
  (h.filter _).map _

theorem conflicts_perm (h : words.Perm words') : conflicts flavor words = conflicts flavor words' := by
  simp only [conflicts, h.countP_eq]

/-- The check of a line counts exactly, and does not depend on the order of its items. -/
theorem count_line {definition : FlavorDefinition} (h : Flavor.load definition = .ok flavor) (number : Nat)
    (l : Line) :
    (line number l flavor).count .error =
        repeats (letters l.words) + conflicts flavor l.words + tooManyMWords l ∧
      (line number l flavor).count .warning = l.words.countP (isUnknown flavor) ∧
      ∀ other : Line, other.items.Perm l.items →
        (line number other flavor).isValid = (line number l flavor).isValid ∧
        ∀ severity, (line number other flavor).count severity = (line number l flavor).count severity := by
  have hconsistent := Flavor.consistent_of_load h
  obtain ⟨herrors, hwarnings⟩ := count_line_eq hconsistent number l
  refine ⟨herrors, hwarnings, fun other hperm => ?_⟩
  obtain ⟨herrors', hwarnings'⟩ := count_line_eq hconsistent number other
  have hwords : other.words.Perm l.words := hperm.filterMap Item.word?
  have hm : tooManyMWords other = tooManyMWords l := by
    rw [tooManyMWords, tooManyMWords, mWords, mWords, hwords.countP_eq]
  have hcount : ∀ severity,
      (line number other flavor).count severity = (line number l flavor).count severity := by
    intro severity
    cases severity with
    | error => rw [herrors, herrors', repeats_perm (letters_perm hwords), conflicts_perm hwords, hm]
    | warning => rw [hwarnings, hwarnings', hwords.countP_eq]
  exact ⟨by rw [Report.isValid_eq, Report.isValid_eq, hcount], hcount⟩

/-- Three motions, four codes of the spindle, a feed that is given twice, five `M` words, a code that is
not in the table, and one that is not known before the line runs. -/
def crowded : Line where
  items := ([('F', 1), ('G', 0), ('G', 1), ('M', 3), ('G', 4), ('M', 5), ('F', 2), ('M', 9), ('G', 1),
    ('M', 3), ('G', 4), ('M', 5)].map fun (letter, n) => .word ⟨letter, .literal (.integer n)⟩) ++
    [.comment ⟨"drill"⟩, .word ⟨'G', .parameter (.number 1)⟩]

theorem count_line_crowded :
    (line 1 crowded Flavor.sampleFlavor).count .error = 1 + (2 + 3) + 1 ∧
      (line 1 crowded Flavor.sampleFlavor).count .warning = 2 ∧
      (line 1 { crowded with items := crowded.items.reverse } Flavor.sampleFlavor).count .error = 7 := by
  obtain ⟨herrors, hwarnings, hperm⟩ := count_line Flavor.load_sample 1 crowded
  have hreverse := (hperm { crowded with items := crowded.items.reverse } crowded.items.reverse_perm).2 .error
  have hseven : repeats (letters crowded.words) + conflicts Flavor.sampleFlavor crowded.words +
      tooManyMWords crowded = 1 + (2 + 3) + 1 := by decide +kernel
  have htwo : crowded.words.countP (isUnknown Flavor.sampleFlavor) = 2 := by decide +kernel
  exact ⟨herrors.trans hseven, hwarnings.trans htwo, hreverse.trans (herrors.trans hseven)⟩

end Validation

end GCode
