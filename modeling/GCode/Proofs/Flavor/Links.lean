import GCode.Flavor.Group
import GCode.Proofs.Result

/-!
# Links of a table

The entries of a table are linked to the groups that hold their codes. While groups are loaded, the
links agree with the list of the codes that were put into a group so far.
-/

namespace GCode

/-- The entry as its definition makes it. -/
def CodeEntry.unlinked (entry : CodeEntry) : CodeEntry :=
  { entry with modalGroup := none, executionGroup := none }

namespace CodeTable

/-- The entries of a table without their links. -/
def unlinked (table : CodeTable) : List CodeEntry :=
  table.entries.map CodeEntry.unlinked

variable {κ : Type} {link : CodeEntry → Option κ} {k : κ} {f : CodeEntry → CodeEntry}
variable {table table' : CodeTable} {code : String}

/-! ## Entries -/

theorem code_of_get? {entry : CodeEntry} (h : table.get? code = some entry) : entry.code = code := by
  simpa using List.find?_some h

theorem isSome_get? : (table.get? code).isSome = true ↔ code ∈ table.codes := by
  simp [get?, codes]

theorem contains_iff : table.contains code = true ↔ code ∈ table.codes :=
  isSome_get?

theorem codes_update (hf : ∀ entry, (f entry).code = entry.code) :
    (table.update code f).codes = table.codes := by
  simp only [codes, update, List.map_map]
  refine List.map_congr_left fun entry _ => ?_
  by_cases h : entry.code = code <;> simp [h, hf]

theorem map_code_unlinked (table : CodeTable) : table.unlinked.map CodeEntry.code = table.codes := by
  rw [unlinked, List.map_map]
  rfl

theorem unlinked_update (hf : ∀ entry, (f entry).unlinked = entry.unlinked) :
    (table.update code f).unlinked = table.unlinked := by
  simp only [unlinked, update, List.map_map]
  refine List.map_congr_left fun entry _ => ?_
  by_cases h : entry.code = code <;> simp [h, hf]

theorem get?_update (hf : ∀ entry, (f entry).code = entry.code) (other : String) :
    (table.update code f).get? other =
      if other = code then (table.get? other).map f else table.get? other := by
  have hsame : ∀ entry, (if entry.code == code then f entry else entry).code = entry.code := by
    intro entry
    split
    · exact hf entry
    · rfl
  have hfind : (table.update code f).get? other =
      (table.get? other).map fun entry => if entry.code == code then f entry else entry := by
    simp only [get?, update, List.find?_map, Function.comp_def, hsame]
  rw [hfind]
  cases hother : table.get? other with
  | none => simp
  | some entry =>
      have hcode := code_of_get? hother
      by_cases h : other = code <;> simp [h, hcode]

/-! ## Ranges -/

theorem position_eq_ok {i : Nat} (h : table.position code = .ok i) : i < table.codes.length := by
  rw [position] at h
  split at h
  · rename_i hfind
    cases h
    exact (List.findIdx?_eq_some_iff_findIdx_eq.mp hfind).1
  · cases h

theorem range_eq_ok {start stop : String} {codes : List String}
    (h : table.range start stop = .ok codes) : codes ≠ [] ∧ ∀ c ∈ codes, c ∈ table.codes := by
  simp only [range, bind_eq_ok_iff] at h
  obtain ⟨first, hfirst, last, hlast, h⟩ := h
  split at h
  · cases h
  · cases h
    have hlt := position_eq_ok hfirst
    constructor
    · apply List.ne_nil_of_length_pos
      simp only [List.length_take, List.length_drop]
      omega
    · intro c hc
      exact List.mem_of_mem_drop (List.mem_of_mem_take hc)

/-- What an entry of a group stands for is not empty, and all of it is in the table. -/
theorem expand_eq_ok {entry holder : String} {codes : List String}
    (h : table.expand entry holder = .ok codes) : codes ≠ [] ∧ ∀ c ∈ codes, c ∈ table.codes := by
  rw [expand] at h
  split at h
  · split at h
    · cases h
    · simp only [bind_eq_ok_iff] at h
      obtain ⟨_, _, _, _, h⟩ := h
      exact range_eq_ok h
  · split at h
    · cases h
    · simp only [bind_eq_ok_iff] at h
      obtain ⟨code, _, h⟩ := h
      split at h
      · rename_i hcode
        cases h
        simpa using contains_iff.mp hcode
      · cases h

theorem expand_all_eq_ok {entries : List String} {holder : String} {expanded : List (List String)}
    (h : (entries.mapM fun entry => table.expand entry holder) = .ok expanded) (hne : entries ≠ []) :
    expanded.flatten ≠ [] ∧ ∀ c ∈ expanded.flatten, c ∈ table.codes := by
  rw [mapM_eq_ok_iff] at h
  have hall : ∀ codes ∈ expanded, codes ≠ [] ∧ ∀ c ∈ codes, c ∈ table.codes := by
    intro codes hcodes
    have hmem : .ok codes ∈ entries.map fun entry => table.expand entry holder := by
      rw [h]
      exact List.mem_map_of_mem hcodes
    obtain ⟨entry, _, hexpand⟩ := List.mem_map.mp hmem
    exact expand_eq_ok hexpand
  constructor
  · have hsome : expanded ≠ [] := by
      rintro rfl
      exact hne (List.map_eq_nil_iff.mp h)
    obtain ⟨codes, hcodes⟩ := List.exists_mem_of_ne_nil _ hsome
    intro hflat
    exact (hall codes hcodes).1 (List.flatten_eq_nil_iff.mp hflat codes hcodes)
  · intro c hc
    obtain ⟨codes, hcodes, hc⟩ := List.mem_flatten.mp hc
    exact (hall codes hcodes).2 c hc

/-! ## Links -/

/-- The links of a table say the same as a list of codes with the groups that hold them. -/
structure Linked (link : CodeEntry → Option κ) (table : CodeTable) (members : List (String × κ)) :
    Prop where
  nodup : (members.map Prod.fst).Nodup
  mem_iff : ∀ code k, (code, k) ∈ members ↔ (table.get? code).bind link = some k

theorem Linked.perm {members others : List (String × κ)} (h : table.Linked link members)
    (hperm : members.Perm others) : table.Linked link others where
  nodup := (hperm.map Prod.fst).nodup_iff.mp h.nodup
  mem_iff := fun code k => hperm.mem_iff.symm.trans (h.mem_iff code k)

/-- Setting the link of a code that has none adds it to the members. -/
theorem Linked.set {members : List (String × κ)} (h : table.Linked link members)
    (hcode : code ∈ table.codes) (hfree : (table.get? code).bind link = none)
    (hf : ∀ entry, (f entry).code = entry.code) (hlink : ∀ entry, link (f entry) = some k) :
    (table.update code f).Linked link (members ++ [(code, k)]) where
  nodup := by
    -- a member has a link, and this code has none
    have hnew : code ∉ members.map Prod.fst := by
      intro hmem
      obtain ⟨⟨_, j⟩, hj, rfl⟩ := List.mem_map.mp hmem
      rw [(h.mem_iff _ j).mp hj] at hfree
      cases hfree
    simpa [List.nodup_append] using ⟨h.nodup, fun c j hj he => hnew (he ▸ List.mem_map_of_mem hj)⟩
  mem_iff := by
    intro other j
    obtain ⟨entry, hentry⟩ := Option.isSome_iff_exists.mp (isSome_get?.mpr hcode)
    rw [get?_update hf, List.mem_append, h.mem_iff, List.mem_singleton, Prod.mk.injEq]
    by_cases hother : other = code
    · subst hother
      rw [hentry, Option.bind_some] at hfree
      simp [hentry, hfree, hlink, eq_comm]
    · simp [hother]

/-- A change that keeps the links of the entries keeps those of the table. -/
theorem Linked.keep {members : List (String × κ)} (h : table.Linked link members)
    (hf : ∀ entry, (f entry).code = entry.code) (hlink : ∀ entry, link (f entry) = link entry) :
    (table.update code f).Linked link members where
  nodup := h.nodup
  mem_iff := by
    intro other j
    have hsame : link ∘ f = link := funext hlink
    rw [h.mem_iff, get?_update hf]
    by_cases hother : other = code
    · rw [if_pos hother, Option.bind_map, hsame]
    · simp [hother]

/-! ## Putting codes into groups -/

/-- A table of these entries, whose links agree with these members of the groups. -/
structure Agrees (table : CodeTable) (base : List CodeEntry) (modal : List (String × ModalGroupId))
    (execution : List (String × UInt32)) : Prop where
  unlinked : table.unlinked = base
  modal : table.Linked CodeEntry.modalGroup modal
  execution : table.Linked CodeEntry.executionGroup execution

variable {base : List CodeEntry} {added : List String} {modal : List (String × ModalGroupId)}
variable {execution : List (String × UInt32)}

theorem Agrees.codes (h : table.Agrees base modal execution) : table.codes = base.map CodeEntry.code := by
  rw [← h.unlinked, map_code_unlinked]

theorem Agrees.assignModalGroup {id : ModalGroupId} (h : table.Agrees base modal execution)
    (hcode : code ∈ base.map CodeEntry.code) (hassign : table.assignModalGroup id code = .ok table') :
    table'.Agrees base (modal ++ [(code, id)]) execution := by
  rw [CodeTable.assignModalGroup] at hassign
  split at hassign
  · cases hassign
  · rename_i hfree
    cases hassign
    exact ⟨(unlinked_update (by intro; rfl)).trans h.unlinked,
      h.modal.set (by rwa [h.codes]) hfree (fun _ => rfl) (fun _ => rfl),
      h.execution.keep (fun _ => rfl) (fun _ => rfl)⟩

theorem Agrees.assignExecutionGroup {index : UInt32} (h : table.Agrees base modal execution)
    (hcode : code ∈ base.map CodeEntry.code) (hassign : table.assignExecutionGroup index code = .ok table') :
    table'.Agrees base modal (execution ++ [(code, index)]) := by
  rw [CodeTable.assignExecutionGroup] at hassign
  split at hassign
  · cases hassign
  · rename_i hfree
    cases hassign
    exact ⟨(unlinked_update (by intro; rfl)).trans h.unlinked,
      h.modal.keep (fun _ => rfl) (fun _ => rfl),
      h.execution.set (by rwa [h.codes]) hfree (fun _ => rfl) (fun _ => rfl)⟩

theorem Agrees.assignModalGroups {id : ModalGroupId} (h : table.Agrees base modal execution)
    (hadded : ∀ c ∈ added, c ∈ base.map CodeEntry.code)
    (hassign : added.foldlM (CodeTable.assignModalGroup id) table = .ok table') :
    table'.Agrees base (modal ++ added.map (·, id)) execution := by
  refine of_foldlM_eq_ok
    (motive := fun done t => t.Agrees base (modal ++ done.map (·, id)) execution) hassign ?_ ?_
  · simpa using h
  · intro done c t t' hc ht hstep
    simpa using ht.assignModalGroup (hadded c hc) hstep

theorem Agrees.assignExecutionGroups {index : UInt32} (h : table.Agrees base modal execution)
    (hadded : ∀ c ∈ added, c ∈ base.map CodeEntry.code)
    (hassign : added.foldlM (CodeTable.assignExecutionGroup index) table = .ok table') :
    table'.Agrees base modal (execution ++ added.map (·, index)) := by
  refine of_foldlM_eq_ok
    (motive := fun done t => t.Agrees base modal (execution ++ done.map (·, index))) hassign ?_ ?_
  · simpa using h
  · intro done c t t' hc ht hstep
    simpa using ht.assignExecutionGroup (hadded c hc) hstep

end CodeTable

end GCode
