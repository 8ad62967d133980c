import GCode.Proofs.Flavor.Loading

/-!
# Links between tables

In a loaded flavor a code and its groups name each other, and no code is in two groups of one kind.
-/

namespace GCode

variable {flavor : Flavor} {definition : FlavorDefinition}

/-- The tables of a flavor list what its definition defines, and they name each other. -/
structure Flavor.CrossLinked (flavor : Flavor) (definition : FlavorDefinition) : Prop where
  /-- The codes in order are the canonical spellings of all defined codes. -/
  codes_perm : (flavor.codes.codes.map Except.ok).Perm
    (definition.codes.map fun defined => Code.normalize defined.code)
  codes_nodup : flavor.codes.codes.Nodup
  mem_modalGroup_iff : ∀ code id,
    (∃ group, flavor.modalGroup? id = some group ∧ code ∈ group.codes) ↔
      ∃ entry, flavor.codes.get? code = some entry ∧ entry.modalGroup = some id
  mem_executionGroup_iff : ∀ code index,
    (∃ group, flavor.executionGroup? index = some group ∧ .code code ∈ group.items) ↔
      ∃ entry, flavor.codes.get? code = some entry ∧ entry.executionGroup = some index
  /-- No code is twice in a modal group, or in two of them. -/
  modal_nodup : (flavor.modalGroups.flatMap ModalGroup.codes).Nodup
  /-- No code is twice in a group of the execution order, or in two of them. -/
  execution_nodup : (flavor.executionOrder.flatMap ExecutionGroup.codes).Nodup
  modal_nonempty : ∀ group ∈ flavor.modalGroups, group.codes ≠ []
  execution_nonempty : ∀ group ∈ flavor.executionOrder, group.items ≠ []
  /-- The groups of the execution order are those numbered from one to their count. -/
  executionGroup?_isSome_iff : ∀ index, (flavor.executionGroup? index).isSome = true ↔
    1 ≤ index.toNat ∧ index.toNat ≤ flavor.executionOrder.length
  index_executionGroup? : ∀ index group,
    flavor.executionGroup? index = some group → group.index = index

namespace Flavor

theorem mem_modalGroup_iff_linked (h : flavor.Consistent) (code : String) (id : ModalGroupId) :
    (∃ group, flavor.modalGroup? id = some group ∧ code ∈ group.codes) ↔
      ∃ entry, flavor.codes.get? code = some entry ∧ entry.modalGroup = some id := by
  rw [← Option.bind_eq_some_iff, ← h.modal.mem_iff, mem_modalMembers_iff]
  simp only [modalGroup?_eq_some_iff h, and_assoc]

theorem mem_executionGroup_iff_linked (h : flavor.Consistent) (code : String) (index : UInt32) :
    (∃ group, flavor.executionGroup? index = some group ∧ .code code ∈ group.items) ↔
      ∃ entry, flavor.codes.get? code = some entry ∧ entry.executionGroup = some index := by
  rw [← Option.bind_eq_some_iff, ← h.execution.mem_iff, mem_executionMembers_iff]
  simp only [executionGroup?_eq_some_iff h, and_assoc]

theorem nodup_modalCodes (h : flavor.Consistent) :
    (flavor.modalGroups.flatMap ModalGroup.codes).Nodup := by
  simpa [List.map_flatMap, ModalGroup.members, Function.comp_def] using h.modal.nodup

theorem nodup_executionCodes (h : flavor.Consistent) :
    (flavor.executionOrder.flatMap ExecutionGroup.codes).Nodup := by
  simpa [List.map_flatMap, ExecutionGroup.members, Function.comp_def] using h.execution.nodup

theorem isSome_executionGroup?_iff (index : UInt32) :
    (flavor.executionGroup? index).isSome = true ↔
      1 ≤ index.toNat ∧ index.toNat ≤ flavor.executionOrder.length := by
  rw [executionGroup?]
  split
  · rename_i hzero
    simp [hzero]
  · rename_i hzero
    have hpos : index.toNat ≠ 0 := fun h0 => hzero (UInt32.toNat_inj.mp h0)
    rw [Option.isSome_iff_ne_none, ne_eq, List.getElem?_eq_none_iff]
    omega

/-- The tables of every flavor that can be loaded name each other. -/
theorem load_crossLinked (h : load definition = .ok flavor) : flavor.CrossLinked definition := by
  obtain ⟨table, hdefined, hcodes, hconsistent⟩ := load_eq_ok h
  exact {
    codes_perm := by
      rw [hcodes, CodeTable.codes, List.map_map]
      exact hdefined.listed
    codes_nodup := hcodes ▸ hdefined.nodup
    mem_modalGroup_iff := mem_modalGroup_iff_linked hconsistent
    mem_executionGroup_iff := mem_executionGroup_iff_linked hconsistent
    modal_nodup := nodup_modalCodes hconsistent
    execution_nodup := nodup_executionCodes hconsistent
    modal_nonempty := hconsistent.modalGroups.nonempty
    execution_nonempty := hconsistent.executionOrder.nonempty
    executionGroup?_isSome_iff := isSome_executionGroup?_iff
    index_executionGroup? := fun _ _ hget => ((executionGroup?_eq_some_iff hconsistent).mp hget).2 }

theorem load_crossLinked_sample : load sample = .ok sampleFlavor ∧ sampleFlavor.CrossLinked sample :=
  ⟨load_sample, load_crossLinked load_sample⟩

end Flavor

end GCode
