import GCode.Flavor.Basic
import GCode.Proofs.Flavor.Links
import GCode.Proofs.Keyed

/-!
# Loaded tables

Loading a group puts its codes behind the members of the groups before it. At the end the links of the
codes agree with the members of all groups.
-/

namespace GCode

/-! ## Codes -/

/-- The entry that a definition makes, linked to no group. -/
def CodeDefinition.entry (definition : CodeDefinition) : Except LoadError CodeEntry :=
  (Code.normalize definition.code).map fun code =>
    { code, meaning := definition.meaning, doc := definition.doc }

namespace CodeTable

variable {table : CodeTable} {entries entries' : List CodeEntry}
variable {definition : CodeDefinition} {definitions : List CodeDefinition}

theorem define_appends : Appends CodeDefinition.entry CodeEntry.code define := by
  refine appends_of_eq (fun entry => .duplicateEntry "gcode" entry.code) fun entries definition => ?_
  rw [define, CodeDefinition.entry]
  cases Code.normalize definition.code <;> rfl

/-- A table holds what its definitions make, each code once. -/
theorem ofDefinitions_eq_ok_iff :
    ofDefinitions definitions = .ok table ↔
      ∃ entries : List CodeEntry, definitions.map CodeDefinition.entry = entries.map .ok ∧
        (entries.map CodeEntry.code).Nodup ∧
        table = ⟨entries.mergeSort fun a b => Code.le a.code b.code⟩ := by
  have hnil : (([] : List CodeEntry).map CodeEntry.code).Nodup := List.nodup_nil
  simp only [ofDefinitions, bind_eq_ok_iff, define_appends.foldlM_eq_ok_iff hnil]
  constructor
  · rintro ⟨entries, ⟨_, hmake, rfl, hnodup⟩, h⟩
    cases h
    exact ⟨_, hmake, hnodup, rfl⟩
  · rintro ⟨entries, hmake, hnodup, rfl⟩
    exact ⟨entries, ⟨entries, hmake, rfl, hnodup⟩, rfl⟩

/-- Entries that are linked to no group, one for each code that is defined. -/
structure Defined (definitions : List CodeDefinition) (entries : List CodeEntry) : Prop where
  nodup : (entries.map CodeEntry.code).Nodup
  listed : (entries.map fun entry => Except.ok entry.code).Perm
    (definitions.map fun definition => Code.normalize definition.code)
  unlinked : ∀ entry ∈ entries, entry.modalGroup = none ∧ entry.executionGroup = none

theorem Defined.perm (h : Defined definitions entries) (hperm : entries.Perm entries') :
    Defined definitions entries' where
  nodup := (hperm.map CodeEntry.code).nodup_iff.mp h.nodup
  listed := (hperm.map _).symm.trans h.listed
  unlinked := fun entry hentry => h.unlinked entry (hperm.mem_iff.mpr hentry)

theorem defined_of_ofDefinitions (h : ofDefinitions definitions = .ok table) :
    Defined definitions table.entries := by
  obtain ⟨entries, hmake, hnodup, rfl⟩ := ofDefinitions_eq_ok_iff.mp h
  have hdefined : Defined definitions entries := by
    refine ⟨hnodup, ?_, ?_⟩
    · have hcodes := congrArg (List.map fun entry => Except.map CodeEntry.code entry) hmake
      rw [List.map_map, List.map_map] at hcodes
      have hentry (definition : CodeDefinition) :
          definition.entry.map CodeEntry.code = Code.normalize definition.code := by
        rw [CodeDefinition.entry]
        cases Code.normalize definition.code <;> rfl
      simp only [Function.comp_def, hentry] at hcodes
      rw [hcodes]
      rfl
    · intro entry hentry
      obtain ⟨definition, _, hdefinition⟩ := exists_of_map_eq hmake hentry
      obtain ⟨code, _, rfl⟩ := map_eq_ok_iff.mp hdefinition
      exact ⟨rfl, rfl⟩
  exact hdefined.perm (List.mergeSort_perm _ _).symm

theorem linked_nil {κ : Type} {link : CodeEntry → Option κ}
    (h : ∀ entry ∈ table.entries, link entry = none) : table.Linked link [] where
  nodup := by simp
  mem_iff := by
    intro code k
    rw [Option.bind_eq_some_iff]
    constructor
    · simp
    · rintro ⟨entry, hentry, hlink⟩
      rw [h entry (List.mem_of_find?_eq_some hentry)] at hlink
      cases hlink

theorem Defined.agrees (h : Defined definitions table.entries) :
    table.Agrees table.entries [] [] where
  unlinked := by
    refine (List.map_congr_left fun entry hentry => ?_).trans (List.map_id table.entries)
    obtain ⟨code, meaning, doc, modalGroup, executionGroup⟩ := entry
    obtain ⟨rfl, rfl⟩ := h.unlinked _ hentry
    rfl
  modal := linked_nil fun entry hentry => (h.unlinked entry hentry).1
  execution := linked_nil fun entry hentry => (h.unlinked entry hentry).2

end CodeTable

variable {table table' : CodeTable} {base : List CodeEntry}
variable {modal : List (String × ModalGroupId)} {execution : List (String × UInt32)}

/-! ## Modal groups -/

namespace ModalGroup

variable {groups groups' : List ModalGroup}

/-- The codes of a group with its number. -/
def members (group : ModalGroup) : List (String × ModalGroupId) :=
  group.codes.map (·, group.id)

/-- Groups that are told apart by their numbers, each with some code. -/
structure WellFormed (groups : List ModalGroup) : Prop where
  ids : (groups.map ModalGroup.id).Nodup
  nonempty : ∀ group ∈ groups, group.codes ≠ []

/-- The group that a definition makes of the codes of a table. -/
def make (table : CodeTable) (definition : ModalGroupDefinition) : Except LoadError ModalGroup := do
  let id : ModalGroupId := ⟨definition.kind, definition.index⟩
  if definition.codes.isEmpty then
    throw (.missingEntry "modal group" id.text)
  let codes ← definition.codes.mapM fun entry => table.expand entry "modal group"
  return ⟨id, definition.meaning, codes.flatten⟩

theorem make_eq_ok_iff {definition : ModalGroupDefinition} {group : ModalGroup} :
    make table definition = .ok group ↔ definition.codes ≠ [] ∧
      ∃ expanded, (definition.codes.mapM fun entry => table.expand entry "modal group") = .ok expanded ∧
        group = ⟨⟨definition.kind, definition.index⟩, definition.meaning, expanded.flatten⟩ := by
  rw [make]
  constructor
  · intro h
    split at h
    · cases h
    · rename_i hsome
      simp only [bind_eq_ok_iff] at h
      obtain ⟨expanded, hexpanded, h⟩ := h
      cases h
      exact ⟨by simpa using hsome, expanded, hexpanded, rfl⟩
  · rintro ⟨hsome, expanded, hexpanded, rfl⟩
    rw [if_neg (by simpa using hsome), hexpanded]
    rfl

/-- A step makes a group with a new number and links its codes. -/
theorem load_eq_ok_iff {definition : ModalGroupDefinition} :
    load (table, groups) definition = .ok (table', groups') ↔
      ∃ group, make table definition = .ok group ∧ group.id ∉ groups.map ModalGroup.id ∧
        groups' = groups ++ [group] ∧
        group.codes.foldlM (CodeTable.assignModalGroup group.id) table = .ok table' := by
  simp only [make_eq_ok_iff, load]
  constructor
  · intro h
    split at h
    · cases h
    · rename_i hnew
      split at h
      · cases h
      · rename_i hsome
        simp only [bind_eq_ok_iff] at h
        obtain ⟨expanded, hexpanded, after, hassign, h⟩ := h
        cases h
        exact ⟨_, ⟨by simpa using hsome, expanded, hexpanded, rfl⟩, by simpa using hnew, rfl, hassign⟩
  · rintro ⟨_, ⟨hsome, expanded, hexpanded, rfl⟩, hnew, rfl, hassign⟩
    rw [if_neg (by simpa using hnew), if_neg (by simpa using hsome), hexpanded]
    simp only [bind_eq_ok_iff]
    exact ⟨expanded, rfl, table', hassign, rfl⟩

theorem load_eq_ok {definition : ModalGroupDefinition} (h : table.Agrees base modal execution)
    (hload : load (table, groups) definition = .ok (table', groups')) :
    ∃ group, groups' = groups ++ [group] ∧ group.id ∉ groups.map ModalGroup.id ∧ group.codes ≠ [] ∧
      table'.Agrees base (modal ++ group.members) execution := by
  obtain ⟨group, hmake, hnew, rfl, hassign⟩ := load_eq_ok_iff.mp hload
  obtain ⟨hsome, expanded, hexpanded, rfl⟩ := make_eq_ok_iff.mp hmake
  obtain ⟨hne, hcodes⟩ := CodeTable.expand_all_eq_ok hexpanded hsome
  rw [h.codes] at hcodes
  exact ⟨_, rfl, hnew, hne, h.assignModalGroups hcodes hassign⟩

theorem WellFormed.append {group : ModalGroup} (h : WellFormed groups)
    (hnew : group.id ∉ groups.map ModalGroup.id) (hne : group.codes ≠ []) :
    WellFormed (groups ++ [group]) where
  ids := by
    rw [List.map_append, List.map_singleton, List.nodup_append]
    refine ⟨h.ids, by simp, fun a ha b hb he => hnew ?_⟩
    exact (he.trans (List.mem_singleton.mp hb)) ▸ ha
  nonempty := by
    intro other hother
    rcases List.mem_append.mp hother with hold | hlast
    · exact h.nonempty other hold
    · rwa [List.mem_singleton.mp hlast]

theorem WellFormed.perm (h : WellFormed groups) (hperm : groups.Perm groups') : WellFormed groups' where
  ids := (hperm.map ModalGroup.id).nodup_iff.mp h.ids
  nonempty := fun group hgroup => h.nonempty group (hperm.mem_iff.mpr hgroup)

theorem loadAll_eq_ok {definitions : List ModalGroupDefinition} (h : table.Agrees base [] execution)
    (hload : loadAll table definitions = .ok (table', groups)) :
    WellFormed groups ∧ table'.Agrees base (groups.flatMap members) execution := by
  simp only [loadAll, bind_eq_ok_iff] at hload
  obtain ⟨⟨after, loaded⟩, hfold, hload⟩ := hload
  cases hload
  have hloaded : WellFormed loaded ∧ after.Agrees base (loaded.flatMap members) execution := by
    refine of_foldlM_eq_ok (motive := fun _ state =>
      WellFormed state.2 ∧ state.1.Agrees base (state.2.flatMap members) execution) hfold ?_ ?_
    · exact ⟨⟨by simp, by simp⟩, h⟩
    · rintro _ definition ⟨t, gs⟩ ⟨t', gs'⟩ _ ⟨hgs, ht⟩ hstep
      obtain ⟨group, rfl, hnew, hne, ht'⟩ := load_eq_ok ht hstep
      exact ⟨hgs.append hnew hne, by simpa using ht'⟩
  -- the members were added in the order of the definitions; sorting the groups only permutes them
  have hperm := List.mergeSort_perm loaded fun a b => a.id.le b.id
  exact ⟨hloaded.1.perm hperm.symm, hloaded.2.unlinked,
    hloaded.2.modal.perm (hperm.symm.flatMap_right _), hloaded.2.execution⟩

end ModalGroup

/-! ## Execution order -/

def ExecutionItem.code? : ExecutionItem → Option String
  | .comment => none
  | .code c => some c

@[simp] theorem ExecutionItem.code?_comment : code? .comment = none := rfl

@[simp] theorem ExecutionItem.code?_code (c : String) : (ExecutionItem.code c).code? = some c := rfl

@[simp] theorem ExecutionItem.code?_eq_some_iff {item : ExecutionItem} {c : String} :
    item.code? = some c ↔ item = .code c := by
  cases item <;> simp

namespace ExecutionGroup

variable {groups groups' : List ExecutionGroup} {items items' : List ExecutionItem} {index : UInt32}

/-- The codes of a group, without the place for comments. -/
def codes (group : ExecutionGroup) : List String :=
  group.items.filterMap ExecutionItem.code?

/-- The codes of a group with its number. -/
def members (group : ExecutionGroup) : List (String × UInt32) :=
  group.codes.map (·, group.index)

/-- Groups that are numbered from one, each with some item. -/
structure WellFormed (groups : List ExecutionGroup) : Prop where
  numbered : ∀ i group, groups[i]? = some group → group.index.toNat = i + 1
  nonempty : ∀ group ∈ groups, group.items ≠ []

theorem loadEntry_eq_ok {entry : String} (h : table.Agrees base modal execution)
    (hload : loadEntry index (table, items) entry = .ok (table', items')) :
    ∃ added, items' = items ++ added ∧ added ≠ [] ∧
      table'.Agrees base modal
        (execution ++ (added.filterMap ExecutionItem.code?).map (·, index)) := by
  simp only [loadEntry] at hload
  split at hload
  · cases hload
    exact ⟨[.comment], rfl, by simp, by simpa [List.filterMap_cons] using h⟩
  · simp only [bind_eq_ok_iff] at hload
    obtain ⟨expanded, hexpanded, after, hassign, hload⟩ := hload
    cases hload
    obtain ⟨hne, hcodes⟩ := CodeTable.expand_eq_ok hexpanded
    rw [h.codes] at hcodes
    refine ⟨_, rfl, by simpa using hne, ?_⟩
    simpa [List.filterMap_map, Function.comp_def] using h.assignExecutionGroups hcodes hassign

theorem load_eq_ok {definition : ExecutionGroupDefinition} (h : table.Agrees base modal execution)
    (hload : load (table, groups) definition = .ok (table', groups')) :
    ∃ group, groups' = groups ++ [group] ∧ group.index.toNat = groups.length + 1 ∧ group.items ≠ [] ∧
      table'.Agrees base modal (execution ++ group.members) := by
  simp only [load] at hload
  split at hload
  · cases hload
  · rename_i hindex
    split at hload
    · cases hload
    · rename_i hsome
      simp only [bind_eq_ok_iff] at hload
      obtain ⟨⟨after, items⟩, hfold, hload⟩ := hload
      cases hload
      obtain ⟨hne, hafter⟩ : (definition.codes ≠ [] → items ≠ []) ∧ after.Agrees base modal
          (execution ++ (items.filterMap ExecutionItem.code?).map (·, definition.index)) := by
        refine of_foldlM_eq_ok (motive := fun done state => (done ≠ [] → state.2 ≠ []) ∧
          state.1.Agrees base modal
            (execution ++ (state.2.filterMap ExecutionItem.code?).map (·, definition.index))) hfold ?_ ?_
        · exact ⟨fun hnil => absurd rfl hnil, by simpa using h⟩
        · rintro done entry ⟨t, is⟩ ⟨t', is'⟩ _ ⟨_, ht⟩ hstep
          obtain ⟨added, rfl, hadded, ht'⟩ := loadEntry_eq_ok ht hstep
          exact ⟨fun _ => by simp [hadded], by simpa using ht'⟩
      exact ⟨_, rfl, by simpa using hindex, hne (by simpa using hsome), hafter⟩

theorem WellFormed.append {group : ExecutionGroup} (h : WellFormed groups)
    (hindex : group.index.toNat = groups.length + 1) (hne : group.items ≠ []) :
    WellFormed (groups ++ [group]) where
  numbered := by
    intro i other hother
    rw [List.getElem?_append] at hother
    split at hother
    · exact h.numbered i other hother
    · rw [List.getElem?_singleton] at hother
      split at hother
      · cases hother
        omega
      · cases hother
  nonempty := by
    intro other hother
    rcases List.mem_append.mp hother with hold | hlast
    · exact h.nonempty other hold
    · rwa [List.mem_singleton.mp hlast]

theorem loadAll_eq_ok {definitions : List ExecutionGroupDefinition} (h : table.Agrees base modal [])
    (hload : loadAll table definitions = .ok (table', groups)) :
    WellFormed groups ∧ table'.Agrees base modal (groups.flatMap members) := by
  refine of_foldlM_eq_ok (motive := fun _ state =>
    WellFormed state.2 ∧ state.1.Agrees base modal (state.2.flatMap members)) hload ?_ ?_
  · exact ⟨⟨by simp, by simp⟩, h⟩
  · rintro _ definition ⟨t, gs⟩ ⟨t', gs'⟩ _ ⟨hgs, ht⟩ hstep
    obtain ⟨group, rfl, hindex, hne, ht'⟩ := load_eq_ok ht hstep
    exact ⟨hgs.append hindex hne, by simpa using ht'⟩

end ExecutionGroup

/-! ## Flavors -/

namespace Flavor

/-- The groups of a flavor are well formed, and the links of its codes agree with them. -/
structure Consistent (flavor : Flavor) : Prop where
  modalGroups : ModalGroup.WellFormed flavor.modalGroups
  executionOrder : ExecutionGroup.WellFormed flavor.executionOrder
  modal : flavor.codes.Linked CodeEntry.modalGroup (flavor.modalGroups.flatMap ModalGroup.members)
  execution : flavor.codes.Linked CodeEntry.executionGroup
    (flavor.executionOrder.flatMap ExecutionGroup.members)

variable {flavor : Flavor} {definition : FlavorDefinition}

/-- The groups link the entries of the defined table and change nothing else in it. -/
theorem exists_table_of_load (h : load definition = .ok flavor) :
    ∃ table, CodeTable.ofDefinitions definition.codes = .ok table ∧
      flavor.codes.unlinked = table.entries ∧ flavor.Consistent := by
  simp only [load, bind_eq_ok_iff] at h
  obtain ⟨table, htable, letters, _, parameters, _, ⟨linked, groups⟩, hmodal, ⟨after, order⟩, horder, h⟩ := h
  cases h
  have hdefined := CodeTable.defined_of_ofDefinitions htable
  obtain ⟨hgroups, hlinked⟩ := ModalGroup.loadAll_eq_ok hdefined.agrees hmodal
  obtain ⟨hnumbered, hafter⟩ := ExecutionGroup.loadAll_eq_ok hlinked horder
  exact ⟨table, htable, hafter.unlinked, hgroups, hnumbered, hafter.modal, hafter.execution⟩

theorem load_eq_ok (h : load definition = .ok flavor) :
    ∃ table : CodeTable, CodeTable.Defined definition.codes table.entries ∧
      flavor.codes.codes = table.codes ∧ flavor.Consistent := by
  obtain ⟨table, htable, hunlinked, hconsistent⟩ := exists_table_of_load h
  refine ⟨table, CodeTable.defined_of_ofDefinitions htable, ?_, hconsistent⟩
  rw [← CodeTable.map_code_unlinked, hunlinked, CodeTable.codes]

theorem consistent_of_load (h : load definition = .ok flavor) : flavor.Consistent := by
  obtain ⟨_, _, _, hconsistent⟩ := load_eq_ok h
  exact hconsistent

theorem modalGroup?_eq_some_iff (h : flavor.Consistent) {id : ModalGroupId} {group : ModalGroup} :
    flavor.modalGroup? id = some group ↔ group ∈ flavor.modalGroups ∧ group.id = id := by
  constructor
  · intro hfind
    exact ⟨List.mem_of_find?_eq_some hfind, by simpa using List.find?_some hfind⟩
  · rintro ⟨hgroup, rfl⟩
    have hsome : (flavor.modalGroup? group.id).isSome = true := by
      simpa [modalGroup?] using ⟨group, hgroup, rfl⟩
    obtain ⟨found, hfound⟩ := Option.isSome_iff_exists.mp hsome
    have hid : found.id = group.id := by simpa using List.find?_some hfound
    rw [hfound, List.inj_on_of_nodup_map h.modalGroups.ids (List.mem_of_find?_eq_some hfound) hgroup hid]

theorem executionGroup?_eq_some_iff (h : flavor.Consistent) {index : UInt32} {group : ExecutionGroup} :
    flavor.executionGroup? index = some group ↔
      group ∈ flavor.executionOrder ∧ group.index = index := by
  rw [executionGroup?]
  constructor
  · intro hget
    split at hget
    · cases hget
    · rename_i hzero
      have hnumber := h.executionOrder.numbered _ _ hget
      have hpos : index.toNat ≠ 0 := fun h0 => hzero (UInt32.toNat_inj.mp h0)
      exact ⟨List.mem_of_getElem? hget, UInt32.toNat_inj.mp (by omega)⟩
  · rintro ⟨hgroup, rfl⟩
    obtain ⟨i, hi⟩ := List.getElem?_of_mem hgroup
    have hnumber := h.executionOrder.numbered i group hi
    have hzero : group.index ≠ 0 := by
      intro h0
      rw [h0] at hnumber
      cases hnumber
    rw [if_neg hzero, hnumber, Nat.add_sub_cancel, hi]

theorem mem_modalMembers_iff {code : String} {id : ModalGroupId} :
    (code, id) ∈ flavor.modalGroups.flatMap ModalGroup.members ↔
      ∃ group ∈ flavor.modalGroups, group.id = id ∧ code ∈ group.codes := by
  simp [ModalGroup.members, and_comm, eq_comm]

theorem mem_executionMembers_iff {code : String} {index : UInt32} :
    (code, index) ∈ flavor.executionOrder.flatMap ExecutionGroup.members ↔
      ∃ group ∈ flavor.executionOrder, group.index = index ∧ .code code ∈ group.items := by
  simp [ExecutionGroup.members, ExecutionGroup.codes, and_comm]

/-! ## A small flavor -/

/-- Codes in several spellings, ranges of codes, and places for comments. -/
def sample : FlavorDefinition where
  name := "sample"
  codes := [⟨"f", "feed", none⟩, ⟨"G0", "rapid", none⟩, ⟨"g01", "linear", none⟩, ⟨"G4.0", "dwell", none⟩,
    ⟨"M3", "clockwise", none⟩, ⟨"m05", "stop", none⟩]
  modalGroups := [⟨0, .g, "non-modal", ["G4"]⟩, ⟨1, .g, "motion", ["G0-G1"]⟩,
    ⟨7, .m, "spindle", ["M3 - 5"]⟩]
  executionOrder := [⟨1, "first", ["COMMENT", "F"]⟩, ⟨2, "spindle", ["m3-m5", " COMMENT "]⟩,
    ⟨3, "motion", ["G00", "G1"]⟩]

def sampleFlavor : Flavor where
  name := "sample"
  version := none
  description := none
  codes := ⟨[⟨"F", "feed", none, none, some 1⟩, ⟨"G0", "rapid", none, some ⟨.g, 1⟩, some 3⟩,
    ⟨"G1", "linear", none, some ⟨.g, 1⟩, some 3⟩, ⟨"G4", "dwell", none, some ⟨.g, 0⟩, none⟩,
    ⟨"M3", "clockwise", none, some ⟨.m, 7⟩, some 2⟩, ⟨"M5", "stop", none, some ⟨.m, 7⟩, some 2⟩]⟩
  letters := []
  modalGroups := [⟨⟨.g, 0⟩, "non-modal", ["G4"]⟩, ⟨⟨.g, 1⟩, "motion", ["G0", "G1"]⟩,
    ⟨⟨.m, 7⟩, "spindle", ["M3", "M5"]⟩]
  executionOrder := [⟨1, "first", [.comment, .code "F"]⟩,
    ⟨2, "spindle", [.code "M3", .code "M5", .comment]⟩, ⟨3, "motion", [.code "G0", .code "G1"]⟩]
  parameters := []

theorem load_sample : load sample = .ok sampleFlavor := by
  let linked : CodeTable :=
    ⟨sampleFlavor.codes.entries.map fun entry => { entry with executionGroup := none }⟩
  let defined := linked.entries.map fun entry => { entry with modalGroup := none }
  -- the kernel cannot sort, but the codes and groups are written in order
  have hcodes : CodeTable.ofDefinitions sample.codes = .ok ⟨defined⟩ := by
    have hdefine : sample.codes.foldlM CodeTable.define [] = .ok defined := by decide +kernel
    have hsorted : defined.Pairwise fun a b => Code.le a.code b.code := by decide +kernel
    rw [CodeTable.ofDefinitions, hdefine]
    exact congrArg (fun entries => Except.ok (CodeTable.mk entries)) (List.mergeSort_of_pairwise hsorted)
  have hmodal : ModalGroup.loadAll ⟨defined⟩ sample.modalGroups =
      .ok (linked, sampleFlavor.modalGroups) := by
    have hload : sample.modalGroups.foldlM ModalGroup.load (⟨defined⟩, []) =
        .ok (linked, sampleFlavor.modalGroups) := by decide +kernel
    have hsorted : sampleFlavor.modalGroups.Pairwise fun a b => a.id.le b.id := by decide +kernel
    rw [ModalGroup.loadAll, hload]
    exact congrArg (fun groups => Except.ok (linked, groups)) (List.mergeSort_of_pairwise hsorted)
  have horder : ExecutionGroup.loadAll linked sample.executionOrder =
      .ok (sampleFlavor.codes, sampleFlavor.executionOrder) := by decide +kernel
  have hletters : Letter.loadAll sample.letters = .ok [] := by
    simp [Letter.loadAll, sample, bind, Except.bind, pure, Except.pure]
  have hparameters : Parameter.loadAll sample.parameters = .ok [] := by
    simp [Parameter.loadAll, sample, bind, Except.bind, pure, Except.pure]
  rw [load, hcodes, hletters, hparameters]
  simp only [bind, Except.bind, hmodal, horder]
  rfl

end Flavor

end GCode
