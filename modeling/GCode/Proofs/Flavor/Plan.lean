import GCode.Annotation
import GCode.Proofs.Flavor.Loading

/-!
# Plans

A plan holds the items of a line that belong to a group of the execution order, each of them once. They
stand in the order of their groups, and in one group in the order of the line.
-/

namespace GCode

/-! ## Stable sorting -/

section Sorting

variable {α : Type} {le : α → α → Bool} {r : α → α → Prop} {l : List α}

/-- Sorting leaves the members that are equally far forward as they are. -/
theorem filter_mergeSort (htrans : ∀ a b c, le a b = true → le b c = true → le a c = true)
    (htotal : ∀ a b, (le a b || le b a) = true) (l : List α) (a : α) :
    (l.mergeSort le).filter (fun b => le a b && le b a) = l.filter fun b => le a b && le b a := by
  have hequal : (l.filter fun b => le a b && le b a).Pairwise fun b c => le b c = true := by
    refine List.pairwise_of_forall_mem_list fun b hb c hc => ?_
    simp only [List.mem_filter, Bool.and_eq_true] at hb hc
    exact htrans b a c hb.2.2 hc.2.1
  -- they are in order as they stand, so sorting keeps them as a sublist; it is all of them by its length
  have hsub : (l.filter fun b => le a b && le b a).Sublist
      ((l.mergeSort le).filter fun b => le a b && le b a) := by
    simpa using (List.sublist_mergeSort htrans htotal hequal List.filter_sublist).filter
      fun b => le a b && le b a
  exact (hsub.eq_of_length ((List.mergeSort_perm l le).filter _).length_eq.symm).symm

/-- A relation between earlier and later members stays between those that are equally far forward. -/
theorem pairwise_mergeSort_stable (htrans : ∀ a b c, le a b = true → le b c = true → le a c = true)
    (htotal : ∀ a b, (le a b || le b a) = true) (h : l.Pairwise r) :
    (l.mergeSort le).Pairwise fun a b => le a b = true ∧ (le b a = true → r a b) := by
  have hsorted := List.pairwise_mergeSort htrans htotal l
  refine List.pairwise_iff_forall_sublist.mpr fun {a b} hsub => ?_
  have hab : le a b = true := List.pairwise_iff_forall_sublist.mp hsorted hsub
  refine ⟨hab, fun hba => ?_⟩
  have haa : le a a = true := by simpa using htotal a a
  have hkept : ([a, b].filter fun c => le a c && le c a) = [a, b] := by simp [haa, hab, hba]
  have hbefore : [a, b].Sublist l := by
    have hfilter := hsub.filter fun c => le a c && le c a
    rw [hkept, filter_mergeSort htrans htotal] at hfilter
    exact hfilter.trans List.filter_sublist
  exact List.pairwise_iff_forall_sublist.mp h hbefore

end Sorting

namespace Flavor

variable {flavor : Flavor} {definition : FlavorDefinition} {line : Line}
variable {word : Word} {item : Item} {entry : CodeEntry} {group other : ExecutionGroup}

/-! ## The group of an item -/

/-- The group that an item takes effect in: for a comment the first with a place for comments, for a word
the only one that lists its code. -/
inductive BelongsTo (flavor : Flavor) : Item → ExecutionGroup → Prop
  | comment {group : ExecutionGroup} (comment : Comment) (listed : group ∈ flavor.executionOrder)
      (place : .comment ∈ group.items)
      (first : ∀ other ∈ flavor.executionOrder, .comment ∈ other.items → group.index ≤ other.index) :
      BelongsTo flavor (.comment comment) group
  | word {group : ExecutionGroup} {word : Word} {entry : CodeEntry} (found : flavor.entryOf word = some entry)
      (listed : group ∈ flavor.executionOrder)
      (only : ∀ other ∈ flavor.executionOrder, .code entry.code ∈ other.items ↔ other = group) :
      BelongsTo flavor (.word word) group

theorem eq_of_index_eq (h : flavor.Consistent) (hgroup : group ∈ flavor.executionOrder)
    (hother : other ∈ flavor.executionOrder) (he : other.index = group.index) : other = group := by
  have hfind := (executionGroup?_eq_some_iff h).mpr ⟨hgroup, he.symm⟩
  rw [(executionGroup?_eq_some_iff h).mpr ⟨hother, rfl⟩] at hfind
  exact Option.some.inj hfind

theorem pairwise_index (h : flavor.Consistent) :
    flavor.executionOrder.Pairwise fun a b => a.index ≤ b.index := by
  rw [List.pairwise_iff_getElem]
  intro i j hi hj hlt
  have hbefore := h.executionOrder.numbered i _ (List.getElem?_eq_getElem hi)
  have hafter := h.executionOrder.numbered j _ (List.getElem?_eq_getElem hj)
  rw [UInt32.le_iff_toNat_le]
  omega

theorem commentGroup?_eq (h : flavor.Consistent) :
    flavor.commentGroup? = flavor.executionOrder.find? ExecutionGroup.holdsComments := by
  rw [commentGroup?, commentIndex?]
  cases hfind : flavor.executionOrder.find? ExecutionGroup.holdsComments with
  | none => rfl
  | some group => exact (executionGroup?_eq_some_iff h).mpr ⟨List.mem_of_find?_eq_some hfind, rfl⟩

theorem holdsComments_iff : group.holdsComments = true ↔ .comment ∈ group.items := by
  simp [ExecutionGroup.holdsComments]

theorem belongsTo_of_commentGroup? (h : flavor.Consistent) (comment : Comment)
    (hgroup : flavor.commentGroup? = some group) : flavor.BelongsTo (.comment comment) group := by
  rw [commentGroup?_eq h] at hgroup
  obtain ⟨hplace, before, after, horder, hbefore⟩ := List.find?_eq_some_iff_append.mp hgroup
  refine .comment comment (List.mem_of_find?_eq_some hgroup) (holdsComments_iff.mp hplace) ?_
  intro other hother hcomment
  -- the groups before it hold no comments, and those behind it have higher numbers
  have hpairwise := pairwise_index h
  rw [horder] at hother hpairwise
  rcases List.mem_append.mp hother with hfront | hback
  · exact absurd (holdsComments_iff.mpr hcomment) (by simpa using hbefore other hfront)
  · rcases List.mem_cons.mp hback with rfl | hlater
    · exact UInt32.le_refl _
    · exact List.rel_of_pairwise_cons (List.pairwise_append.mp hpairwise).2.1 hlater

theorem isSome_commentGroup?_iff (h : flavor.Consistent) :
    flavor.commentGroup?.isSome = true ↔ ∃ group ∈ flavor.executionOrder, .comment ∈ group.items := by
  simp [commentGroup?_eq h, ExecutionGroup.holdsComments]

theorem get?_of_entryOf (h : flavor.entryOf word = some entry) :
    flavor.codes.get? entry.code = some entry := by
  rw [entryOf] at h
  split at h
  · rwa [CodeTable.code_of_get? h]
  · split at h
    · cases h
    · rwa [CodeTable.code_of_get? h]

/-- A code is linked to the number of a group exactly if the group lists it. -/
theorem executionGroup_eq_some_iff (h : flavor.Consistent) (hentry : flavor.codes.get? entry.code = some entry)
    {index : UInt32} :
    entry.executionGroup = some index ↔
      ∃ group ∈ flavor.executionOrder, group.index = index ∧ .code entry.code ∈ group.items := by
  rw [← mem_executionMembers_iff, h.execution.mem_iff, hentry, Option.bind_some]

theorem executionGroupOf_eq_some_iff (h : flavor.Consistent)
    (hentry : flavor.codes.get? entry.code = some entry) :
    flavor.executionGroupOf entry = some group ↔
      group ∈ flavor.executionOrder ∧ .code entry.code ∈ group.items := by
  simp only [executionGroupOf, Option.bind_eq_some_iff, executionGroup?_eq_some_iff h,
    executionGroup_eq_some_iff h hentry]
  constructor
  · rintro ⟨_, ⟨other, hother, rfl, hcode⟩, hgroup, he⟩
    exact ⟨hgroup, eq_of_index_eq h hother hgroup he ▸ hcode⟩
  · rintro ⟨hgroup, hcode⟩
    exact ⟨group.index, ⟨group, hgroup, rfl, hcode⟩, hgroup, rfl⟩

theorem isSome_executionGroupOf_iff (h : flavor.Consistent)
    (hentry : flavor.codes.get? entry.code = some entry) :
    (flavor.executionGroupOf entry).isSome = true ↔ entry.executionGroup.isSome = true := by
  simp only [Option.isSome_iff_exists, executionGroupOf_eq_some_iff h hentry,
    executionGroup_eq_some_iff h hentry]
  constructor
  · rintro ⟨group, hgroup, hcode⟩
    exact ⟨group.index, group, hgroup, rfl, hcode⟩
  · rintro ⟨_, group, hgroup, -, hcode⟩
    exact ⟨group, hgroup, hcode⟩

theorem belongsTo_of_executionGroupOf (h : flavor.Consistent) (hfound : flavor.entryOf word = some entry)
    (hgroup : flavor.executionGroupOf entry = some group) : flavor.BelongsTo (.word word) group := by
  have hentry := get?_of_entryOf hfound
  obtain ⟨hlisted, hcode⟩ := (executionGroupOf_eq_some_iff h hentry).mp hgroup
  refine .word hfound hlisted fun other hother => ⟨fun hmem => ?_, fun he => he ▸ hcode⟩
  have hsame := (executionGroupOf_eq_some_iff h hentry).mpr ⟨hother, hmem⟩
  exact Option.some.inj (hsame.symm.trans hgroup)

theorem belongsTo_of_groupOf (h : flavor.Consistent) (hgroup : flavor.groupOf item = some group) :
    flavor.BelongsTo item group := by
  cases item with
  | comment comment => exact belongsTo_of_commentGroup? h comment hgroup
  | word word =>
      obtain ⟨entry, hfound, hgroup⟩ := Option.bind_eq_some_iff.mp hgroup
      exact belongsTo_of_executionGroupOf h hfound hgroup
  | setting setting => cases hgroup

theorem isSome_groupOf_word_iff (h : flavor.Consistent) (word : Word) :
    (flavor.groupOf (.word word)).isSome = true ↔
      ∃ entry, flavor.entryOf word = some entry ∧ entry.executionGroup.isSome = true := by
  rw [groupOf]
  cases hfound : flavor.entryOf word with
  | none => simp
  | some entry => simpa using isSome_executionGroupOf_iff h (get?_of_entryOf hfound)

/-! ## Places on the line -/

/-- The items that take effect with their places, in the order of the line. -/
def placed (flavor : Flavor) (line : Line) : List (PlannedItem × Nat) :=
  line.items.zipIdx.filterMap fun (item, place) =>
    (flavor.groupOf item).map fun group => (⟨group, item⟩, place)

def earlier (a b : PlannedItem × Nat) : Bool :=
  a.1.group.index ≤ b.1.group.index

theorem map_fst_placed : (flavor.placed line).map Prod.fst =
    line.items.filterMap fun item => (flavor.groupOf item).map fun group => ⟨group, item⟩ := by
  conv_rhs => rw [← List.zipIdx_map_fst 0 line.items, List.filterMap_map]
  rw [placed, List.map_filterMap]
  simp [Function.comp_def]

theorem pairwise_placed : (flavor.placed line).Pairwise fun a b => a.2 < b.2 := by
  have hplaces : line.items.zipIdx.Pairwise fun a b => a.2 < b.2 := by
    rw [← List.pairwise_map, List.zipIdx_map_snd]
    exact List.pairwise_lt_range'
  refine hplaces.filterMap _ fun a b hlt step hstep other hother => ?_
  obtain ⟨_, -, rfl⟩ := Option.map_eq_some_iff.mp hstep
  obtain ⟨_, -, rfl⟩ := Option.map_eq_some_iff.mp hother
  exact hlt

theorem mem_placed_iff {step : PlannedItem} {place : Nat} :
    (step, place) ∈ flavor.placed line ↔
      line.items[place]? = some step.item ∧ flavor.groupOf step.item = some step.group := by
  simp only [placed, List.mem_filterMap, Option.map_eq_some_iff]
  constructor
  · rintro ⟨⟨item, _⟩, hitem, group, hgroup, he⟩
    cases he
    exact ⟨List.mk_mem_zipIdx_iff_getElem?.mp hitem, hgroup⟩
  · rintro ⟨hitem, hgroup⟩
    exact ⟨(step.item, place), List.mk_mem_zipIdx_iff_getElem?.mpr hitem, step.group, hgroup, rfl⟩

theorem mem_map_snd_placed_iff {place : Nat} (hitem : line.items[place]? = some item) :
    place ∈ (flavor.placed line).map Prod.snd ↔ (flavor.groupOf item).isSome = true := by
  rw [List.mem_map, Option.isSome_iff_exists]
  constructor
  · rintro ⟨⟨step, _⟩, hstep, rfl⟩
    obtain ⟨hsame, hgroup⟩ := mem_placed_iff.mp hstep
    cases Option.some.inj (hsame.symm.trans hitem)
    exact ⟨step.group, hgroup⟩
  · rintro ⟨group, hgroup⟩
    exact ⟨(⟨group, item⟩, place), mem_placed_iff.mpr ⟨hitem, hgroup⟩, rfl⟩

theorem plan_eq : flavor.plan line = ((flavor.placed line).mergeSort earlier).map Prod.fst := by
  rw [plan, ← map_fst_placed]
  refine (List.map_mergeSort ?_).symm
  intro a _ b _
  rfl

/-! ## Plans -/

/-- Steps that are the items at some places of a line, in the order in which they take effect. -/
structure Scheduled (flavor : Flavor) (line : Line) (steps : List PlannedItem) (places : List Nat) :
    Prop where
  items : places.map (line.items[·]?) = steps.map fun step => some step.item
  nodup : places.Nodup
  mem_comment_iff : ∀ place comment, line.items[place]? = some (.comment comment) →
    (place ∈ places ↔ ∃ group ∈ flavor.executionOrder, .comment ∈ group.items)
  mem_word_iff : ∀ place word, line.items[place]? = some (.word word) →
    (place ∈ places ↔
      ∃ entry, flavor.entryOf word = some entry ∧ entry.executionGroup.isSome = true)
  notMem_setting : ∀ place setting, line.items[place]? = some (.setting setting) → place ∉ places
  belongsTo : ∀ step ∈ steps, flavor.BelongsTo step.item step.group
  /-- An earlier step has an earlier group, or it has the same group and an earlier place. -/
  ordered : (steps.zip places).Pairwise fun a b =>
    a.1.group.index ≤ b.1.group.index ∧ (a.1.group.index = b.1.group.index → a.2 < b.2)

theorem pairwise_sorted_placed : ((flavor.placed line).mergeSort earlier).Pairwise fun a b =>
    a.1.group.index ≤ b.1.group.index ∧ (a.1.group.index = b.1.group.index → a.2 < b.2) := by
  have htrans : ∀ a b c, earlier a b = true → earlier b c = true → earlier a c = true := by
    intro a b c hab hbc
    simp only [earlier, decide_eq_true_eq] at hab hbc ⊢
    exact UInt32.le_trans hab hbc
  have htotal : ∀ a b, (earlier a b || earlier b a) = true := by
    intro a b
    simp only [earlier, Bool.or_eq_true, decide_eq_true_eq]
    exact UInt32.le_total _ _
  refine (pairwise_mergeSort_stable htrans htotal pairwise_placed).imp ?_
  intro a b hab
  simp only [earlier, decide_eq_true_eq] at hab
  exact ⟨hab.1, fun he => hab.2 (he ▸ UInt32.le_refl _)⟩

/-- A plan holds what takes effect and nothing else, in the order of the groups and of the line. -/
theorem plan_scheduled (h : load definition = .ok flavor) (line : Line) :
    ∃ places, flavor.Scheduled line (flavor.plan line) places := by
  have hconsistent := consistent_of_load h
  have hperm := List.mergeSort_perm (flavor.placed line) earlier
  have hplaces := hperm.map Prod.snd
  refine ⟨((flavor.placed line).mergeSort earlier).map Prod.snd, ?_⟩
  rw [plan_eq]
  exact {
    items := by
      rw [List.map_map, List.map_map]
      refine List.map_congr_left fun step hstep => ?_
      exact (mem_placed_iff.mp (hperm.mem_iff.mp hstep)).1
    nodup := by
      rw [hplaces.nodup_iff, List.Nodup, List.pairwise_map]
      exact pairwise_placed.imp Nat.ne_of_lt
    mem_comment_iff := fun place comment hitem => by
      rw [hplaces.mem_iff, mem_map_snd_placed_iff hitem, groupOf, isSome_commentGroup?_iff hconsistent]
    mem_word_iff := fun place word hitem => by
      rw [hplaces.mem_iff, mem_map_snd_placed_iff hitem, isSome_groupOf_word_iff hconsistent]
    notMem_setting := fun place setting hitem => by
      rw [hplaces.mem_iff, mem_map_snd_placed_iff hitem]
      exact Bool.false_ne_true
    belongsTo := fun step hstep => by
      obtain ⟨⟨_, place⟩, hsorted, rfl⟩ := List.mem_map.mp hstep
      exact belongsTo_of_groupOf hconsistent (mem_placed_iff.mp (hperm.mem_iff.mp hsorted)).2
    ordered := by
      rw [List.zip_map']
      simpa using pairwise_sorted_placed }

/-- `G1 X2 (cut) #1=2 M3 F4` -/
def cut : Line where
  items := [.word ⟨'G', .literal (.integer 1)⟩, .word ⟨'X', .literal (.integer 2)⟩, .comment ⟨"cut"⟩,
    .setting ⟨.number 1, .literal (.integer 2)⟩, .word ⟨'M', .literal (.integer 3)⟩,
    .word ⟨'F', .literal (.integer 4)⟩]

theorem plan_scheduled_cut :
    load sample = .ok sampleFlavor ∧
      ∃ places, sampleFlavor.Scheduled cut (sampleFlavor.plan cut) places ∧
        0 ∈ places ∧ 1 ∉ places ∧ 2 ∈ places ∧ 3 ∉ places := by
  obtain ⟨places, hscheduled⟩ := plan_scheduled load_sample cut
  have hmotion : ∃ entry, sampleFlavor.entryOf ⟨'G', .literal (.integer 1)⟩ = some entry ∧
      entry.executionGroup.isSome = true :=
    ⟨⟨"G1", "linear", none, some ⟨.g, 1⟩, some 3⟩, by decide +kernel, rfl⟩
  have hargument : sampleFlavor.entryOf ⟨'X', .literal (.integer 2)⟩ = none := by decide +kernel
  refine ⟨load_sample, places, hscheduled, ?_, ?_, ?_, hscheduled.notMem_setting 3 _ rfl⟩
  · exact (hscheduled.mem_word_iff 0 _ rfl).mpr hmotion
  · simp [hscheduled.mem_word_iff 1 _ rfl, hargument]
  · exact (hscheduled.mem_comment_iff 2 _ rfl).mpr
      ⟨⟨1, "first", [.comment, .code "F"]⟩, List.mem_cons_self, List.mem_cons_self⟩

end Flavor

end GCode
