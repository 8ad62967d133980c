import GCode.Proofs.Flavor.Order

/-!
# The order of definitions

The codes, letters, modal groups and parameters of a flavor can be defined in any order: the flavor is loaded
or refused either way, and it is the same flavor.
-/

namespace GCode

/-! ## Tables of one kind -/

/-- The canonical codes of the definitions. -/
def definedCodes (definitions : List CodeDefinition) : List String :=
  definitions.filterMap fun definition => (Code.normalize definition.code).toOption

theorem CodeTable.ofDefinitions_of_perm {definitions definitions' : List CodeDefinition} {table : CodeTable}
    (h : definitions.Perm definitions') (hapart : Code.ZeroApart (definedCodes definitions))
    (hload : ofDefinitions definitions = .ok table) : ofDefinitions definitions' = .ok table := by
  obtain ⟨entries, hmake, hnodup, rfl⟩ := ofDefinitions_eq_ok_iff.mp hload
  obtain ⟨entries', hmake', hperm⟩ := exists_perm_of_map_eq h hmake
  refine ofDefinitions_eq_ok_iff.mpr ⟨entries', hmake', (hperm.map _).nodup_iff.mp hnodup, ?_⟩
  have hdefined : ∀ entry ∈ entries, Code.Canonical entry.code ∧ entry.code ∈ definedCodes definitions := by
    intro entry hentry
    obtain ⟨definition, hdefinition, hmade⟩ := exists_of_map_eq hmake hentry
    obtain ⟨code, hcode, rfl⟩ := map_eq_ok_iff.mp hmade
    refine ⟨Code.canonical_of_normalize hcode, List.mem_filterMap.mpr ⟨definition, hdefinition, ?_⟩⟩
    rw [hcode]
    rfl
  refine congrArg CodeTable.mk (mergeSort_eq_of_perm ?_ ?_ hperm hnodup ?_)
  · exact fun a b c => Code.le_trans a.code b.code c.code
  · exact fun a b => Code.le_total a.code b.code
  · intro a ha b hb hab hba
    obtain ⟨hacanonical, hacode⟩ := hdefined a ha
    obtain ⟨hbcanonical, hbcode⟩ := hdefined b hb
    exact Code.eq_of_le_of_le hacanonical hbcanonical hab hba hapart hacode hbcode

/-- The letter that a definition makes. -/
def LetterDefinition.make (definition : LetterDefinition) : Except LoadError Letter :=
  match Letter.read? definition.letter with
  | none => .error (.invalidLetter definition.letter)
  | some c => .ok ⟨c, definition.meaning⟩

theorem Letter.define_appends : Appends LetterDefinition.make Letter.letter Letter.define := by
  refine appends_of_eq (fun letter => .duplicateEntry "letter" letter.letter.toString) fun letters definition => ?_
  rw [define, LetterDefinition.make]
  cases read? definition.letter <;> rfl

theorem Letter.loadAll_of_perm {definitions definitions' : List LetterDefinition} {letters : List Letter}
    (h : definitions.Perm definitions') (hload : loadAll definitions = .ok letters) :
    loadAll definitions' = .ok letters :=
  define_appends.sorted_of_perm h hload

/-- The parameter that a definition makes. -/
def ParameterDefinition.make (definition : ParameterDefinition) : Except LoadError Parameter :=
  .ok ⟨definition.index, definition.value, definition.meaning⟩

theorem Parameter.define_appends : Appends ParameterDefinition.make Parameter.index Parameter.define :=
  appends_of_eq (fun parameter => .duplicateEntry "parameter" parameter.index.toNat.repr) fun _ _ => rfl

theorem Parameter.loadAll_of_perm {definitions definitions' : List ParameterDefinition}
    {parameters : List Parameter} (h : definitions.Perm definitions')
    (hload : loadAll definitions = .ok parameters) : loadAll definitions' = .ok parameters :=
  define_appends.sorted_of_perm h hload

/-! ## Links to modal groups -/

/-- The entry, linked to a modal group. -/
def CodeEntry.inModalGroup (id : ModalGroupId) (entry : CodeEntry) : CodeEntry :=
  { entry with modalGroup := some id }

theorem CodeEntry.code_inModalGroup (id : ModalGroupId) (entry : CodeEntry) :
    (entry.inModalGroup id).code = entry.code := rfl

namespace CodeTable

variable {table table' : CodeTable} {code other : String} {f g : CodeEntry → CodeEntry}

theorem update_of_get?_eq_none (h : table.get? code = none) : table.update code f = table := by
  have hnone : ∀ entry ∈ table.entries, ¬ entry.code = code := by simpa [get?] using h
  have hsame : (table.entries.map fun entry => if entry.code == code then f entry else entry) =
      table.entries.map id :=
    List.map_congr_left fun entry hentry => by simp [hnone entry hentry]
  rw [update, hsame, List.map_id]

theorem update_update_comm (hf : ∀ entry, (f entry).code = entry.code)
    (hg : ∀ entry, (g entry).code = entry.code) (h : code ≠ other) :
    (table.update code f).update other g = (table.update other g).update code f := by
  simp only [update, List.map_map]
  refine congrArg CodeTable.mk (List.map_congr_left fun entry _ => ?_)
  by_cases hcode : entry.code = code
  · simp [hcode, hf, h]
  · by_cases hother : entry.code = other
    · simp [hother, hg, h.symm]
    · simp [hcode, hother]

theorem assignModalGroup_eq_ok_iff {id : ModalGroupId} :
    table.assignModalGroup id code = .ok table' ↔
      (table.get? code).bind CodeEntry.modalGroup = none ∧
        table' = table.update code (CodeEntry.inModalGroup id) := by
  rw [assignModalGroup]
  split
  · rename_i hlink
    simp [hlink]
  · rename_i hlink
    rw [Except.ok.injEq, and_iff_right hlink]
    exact eq_comm

/-- Links a code with the group that holds it. -/
def link (table : CodeTable) (member : String × ModalGroupId) : Except LoadError CodeTable :=
  table.assignModalGroup member.2 member.1

theorem codes_of_link {member : String × ModalGroupId} (h : table.link member = .ok table') :
    table'.codes = table.codes := by
  obtain ⟨_, rfl⟩ := assignModalGroup_eq_ok_iff.mp h
  exact codes_update (CodeEntry.code_inModalGroup _)

/-- Whether a code is linked before another one or after it makes no difference. -/
theorem link_comm (s : CodeTable) (a : String × ModalGroupId) (t : CodeTable) (b : String × ModalGroupId)
    (u : CodeTable) (ha : s.link a = .ok t) (hb : t.link b = .ok u) :
    ∃ t', s.link b = .ok t' ∧ t'.link a = .ok u := by
  obtain ⟨code, id⟩ := a
  obtain ⟨other, id'⟩ := b
  simp only [link, assignModalGroup_eq_ok_iff] at ha hb ⊢
  obtain ⟨hfree, rfl⟩ := ha
  obtain ⟨hfree', rfl⟩ := hb
  rw [get?_update (CodeEntry.code_inModalGroup id)] at hfree'
  by_cases hsame : other = code
  · -- a code can only be linked twice if it is not in the table
    subst hsame
    have hnone : s.get? other = none := by
      cases hentry : s.get? other with
      | none => rfl
      | some entry =>
          rw [if_pos rfl, hentry] at hfree'
          cases hfree'
    simp only [update_of_get?_eq_none hnone]
    exact ⟨s, ⟨hfree, rfl⟩, hfree, (update_of_get?_eq_none hnone).symm⟩
  · rw [if_neg hsame] at hfree'
    refine ⟨_, ⟨hfree', rfl⟩, ?_, ?_⟩
    · rwa [get?_update (CodeEntry.code_inModalGroup id'), if_neg (Ne.symm hsame)]
    · exact update_update_comm (CodeEntry.code_inModalGroup id) (CodeEntry.code_inModalGroup id')
        (Ne.symm hsame)

end CodeTable

/-! ## Modal groups -/

namespace ModalGroupId

/-- The place of a group among the modal groups. -/
def rank (id : ModalGroupId) : ℕ ×ₗ ℕ :=
  toLex (if id.kind = .g then 0 else 1, id.index.toNat)

theorem le_iff {a b : ModalGroupId} : a.le b = true ↔ a.rank ≤ b.rank := by
  obtain ⟨kind, index⟩ := a
  obtain ⟨kind', index'⟩ := b
  cases kind <;> cases kind' <;> simp [le, rank, Prod.Lex.toLex_le_toLex, UInt32.le_iff_toNat_le]

theorem rank_injective : Function.Injective rank := by
  rintro ⟨kind, index⟩ ⟨kind', index'⟩ h
  obtain ⟨hkind, hindex⟩ := Prod.mk.inj (toLex_inj.mp h)
  obtain rfl : index = index' := UInt32.toNat_inj.mp hindex
  cases kind with
  | g =>
      cases kind' with
      | g => rfl
      | m => cases hkind
  | m =>
      cases kind' with
      | g => cases hkind
      | m => rfl

end ModalGroupId

namespace ModalGroup

variable {table table' : CodeTable} {groups groups' : List ModalGroup}
variable {definition : ModalGroupDefinition} {definitions definitions' : List ModalGroupDefinition}

theorem make_congr (h : table.codes = table'.codes) : make table definition = make table' definition := by
  have hcontains (code : String) : table.contains code = table'.contains code := by
    rw [Bool.eq_iff_iff, CodeTable.contains_iff, CodeTable.contains_iff, h]
  have hexpand (entry holder : String) : table.expand entry holder = table'.expand entry holder := by
    simp only [CodeTable.expand, CodeTable.range, CodeTable.position, h, hcontains]
  simp only [make, hexpand]

theorem foldlM_link_members (group : ModalGroup) (table : CodeTable) :
    group.members.foldlM CodeTable.link table =
      group.codes.foldlM (CodeTable.assignModalGroup group.id) table :=
  List.foldlM_map

theorem codes_of_foldlM_link {members : List (String × ModalGroupId)}
    (h : members.foldlM CodeTable.link table = .ok table') : table'.codes = table.codes := by
  refine of_foldlM_eq_ok (motive := fun _ t => t.codes = table.codes) h rfl ?_
  intro _ _ t t' _ ht hstep
  exact (CodeTable.codes_of_link hstep).trans ht

/-- Groups are made one by one, no number twice, and their codes are linked in the order of the groups. -/
theorem foldlM_load_eq_ok_iff (hnodup : (groups.map ModalGroup.id).Nodup) :
    definitions.foldlM load (table, groups) = .ok (table', groups') ↔
      ∃ added, definitions.map (make table) = added.map .ok ∧ groups' = groups ++ added ∧
        (groups'.map ModalGroup.id).Nodup ∧
        (added.flatMap members).foldlM CodeTable.link table = .ok table' := by
  induction definitions generalizing table groups with
  | nil =>
      constructor
      · rintro ⟨⟩
        exact ⟨[], rfl, (List.append_nil _).symm, hnodup, rfl⟩
      · rintro ⟨added, hmake, rfl, _, hlink⟩
        rw [List.map_eq_nil_iff.mp hmake.symm] at hlink ⊢
        cases hlink
        rw [List.append_nil]
        rfl
  | cons definition definitions ih =>
      have hmakes {t : CodeTable} {group : ModalGroup}
          (h : group.members.foldlM CodeTable.link table = .ok t) : make t = make table :=
        funext fun _ => make_congr (codes_of_foldlM_link h)
      rw [List.foldlM_cons, bind_eq_ok_iff]
      constructor
      · rintro ⟨⟨t, _⟩, hfirst, hrest⟩
        obtain ⟨group, hgroup, hnew, rfl, hlink⟩ := load_eq_ok_iff.mp hfirst
        rw [← foldlM_link_members] at hlink
        obtain ⟨added, hadded, rfl, hall, hlinks⟩ := (ih ((nodup_map_snoc hnodup).mpr hnew)).mp hrest
        refine ⟨group :: added, ?_, by simp, hall, ?_⟩
        · rw [List.map_cons, List.map_cons, hgroup, ← hadded, hmakes hlink]
        · rw [List.flatMap_cons, List.foldlM_append, bind_eq_ok_iff]
          exact ⟨t, hlink, hlinks⟩
      · rintro ⟨added, hmake, rfl, hall, hlinks⟩
        obtain ⟨group, added, rfl, hgroup, hadded⟩ := List.map_eq_cons_iff.mp hmake.symm
        rw [List.flatMap_cons, List.foldlM_append, bind_eq_ok_iff] at hlinks
        obtain ⟨t, hlink, hlinks⟩ := hlinks
        have hfront : ((groups ++ [group]).map ModalGroup.id).Nodup := by
          rw [List.append_cons, List.map_append] at hall
          exact (List.nodup_append.mp hall).1
        refine ⟨(t, groups ++ [group]), load_eq_ok_iff.mpr ⟨group, hgroup.symm, ?_, rfl, ?_⟩, ?_⟩
        · exact (nodup_map_snoc hnodup).mp hfront
        · rwa [← foldlM_link_members]
        · refine (ih hfront).mpr ⟨added, ?_, List.append_cons _ _ _, hall, hlinks⟩
          rw [hmakes hlink, hadded]

theorem loadAll_of_perm (h : definitions.Perm definitions')
    (hload : loadAll table definitions = .ok (table', groups)) :
    loadAll table definitions' = .ok (table', groups) := by
  have hnil : (([] : List ModalGroup).map ModalGroup.id).Nodup := List.nodup_nil
  simp only [loadAll, bind_eq_ok_iff] at hload ⊢
  obtain ⟨⟨linked, loaded⟩, hfold, hsort⟩ := hload
  cases hsort
  obtain ⟨added, hadded, rfl, hnodup, hlinks⟩ := (foldlM_load_eq_ok_iff hnil).mp hfold
  obtain ⟨added', hadded', hperm⟩ := exists_perm_of_map_eq h hadded
  refine ⟨(linked, added'), (foldlM_load_eq_ok_iff hnil).mpr ⟨added', hadded', rfl, ?_, ?_⟩, ?_⟩
  · exact (hperm.map _).nodup_iff.mp hnodup
  · exact foldlM_eq_ok_of_perm CodeTable.link_comm (hperm.flatMap_right _) hlinks
  · refine congrArg (fun groups => Except.ok (linked, groups)) (mergeSort_eq_of_perm ?_ ?_ hperm hnodup ?_).symm
    · simpa only [ModalGroupId.le_iff] using fun a b c => le_trans
    · simpa only [Bool.or_eq_true, ModalGroupId.le_iff] using fun a b => le_total _ _
    · simp only [ModalGroupId.le_iff]
      exact fun a _ b _ hab hba => ModalGroupId.rank_injective (hab.antisymm hba)

end ModalGroup

/-! ## Flavors -/

/-- The same definitions in another order; the execution order is an order itself. -/
structure FlavorDefinition.Reordered (definition definition' : FlavorDefinition) : Prop where
  name : definition.name = definition'.name
  version : definition.version = definition'.version
  description : definition.description = definition'.description
  codes : definition.codes.Perm definition'.codes
  letters : definition.letters.Perm definition'.letters
  modalGroups : definition.modalGroups.Perm definition'.modalGroups
  executionOrder : definition.executionOrder = definition'.executionOrder
  parameters : definition.parameters.Perm definition'.parameters

theorem FlavorDefinition.Reordered.symm {definition definition' : FlavorDefinition}
    (h : definition.Reordered definition') : definition'.Reordered definition :=
  ⟨h.name.symm, h.version.symm, h.description.symm, h.codes.symm, h.letters.symm, h.modalGroups.symm,
    h.executionOrder.symm, h.parameters.symm⟩

namespace Flavor

variable {definition definition' : FlavorDefinition} {flavor : Flavor}

theorem load_of_reordered (h : definition.Reordered definition')
    (hapart : Code.ZeroApart (definedCodes definition.codes)) (hload : load definition = .ok flavor) :
    load definition' = .ok flavor := by
  simp only [load, bind_eq_ok_iff] at hload ⊢
  obtain ⟨table, hcodes, letters, hletters, parameters, hparameters, ⟨linked, groups⟩, hmodal,
    ⟨after, order⟩, horder, hflavor⟩ := hload
  refine ⟨table, CodeTable.ofDefinitions_of_perm h.codes hapart hcodes,
    letters, Letter.loadAll_of_perm h.letters hletters,
    parameters, Parameter.loadAll_of_perm h.parameters hparameters,
    (linked, groups), ModalGroup.loadAll_of_perm h.modalGroups hmodal,
    (after, order), h.executionOrder ▸ horder, ?_⟩
  rw [← hflavor, h.name, h.version, h.description]

/-- Definitions in another order load the same flavor or none. -/
theorem load_reordered (h : definition.Reordered definition')
    (hapart : Code.ZeroApart (definedCodes definition.codes)) (flavor : Flavor) :
    load definition = .ok flavor ↔ load definition' = .ok flavor := by
  have hperm : (definedCodes definition.codes).Perm (definedCodes definition'.codes) := h.codes.filterMap _
  have hapart' : Code.ZeroApart (definedCodes definition'.codes) := by
    intro c hbare hzero
    exact hapart c (hperm.mem_iff.mpr hbare) (hperm.mem_iff.mpr hzero)
  exact ⟨load_of_reordered h hapart, load_of_reordered h.symm hapart'⟩

/-- The sample flavor with its codes and modal groups from the last to the first. -/
theorem load_reordered_sample :
    FlavorDefinition.Reordered sample
        { sample with codes := sample.codes.reverse, modalGroups := sample.modalGroups.reverse } ∧
      Code.ZeroApart (definedCodes sample.codes) ∧
      load { sample with codes := sample.codes.reverse, modalGroups := sample.modalGroups.reverse } =
        .ok sampleFlavor := by
  have hreordered : FlavorDefinition.Reordered sample
      { sample with codes := sample.codes.reverse, modalGroups := sample.modalGroups.reverse } :=
    ⟨rfl, rfl, rfl, (List.reverse_perm _).symm, .refl _, (List.reverse_perm _).symm, rfl, .refl _⟩
  have hapart : Code.ZeroApart (definedCodes sample.codes) := Code.zeroApart_of_bare (by decide +kernel)
  exact ⟨hreordered, hapart, (load_reordered hreordered hapart sampleFlavor).mp load_sample⟩

end Flavor

end GCode
