import GCode.Proofs.Result
import Mathlib.Data.List.Nodup

/-!
# Lists with keys

A table is made member by member, no key twice, and then sorted. Whether it can be made, and which table it
is, does not depend on the order in which the members are given.
-/

namespace GCode

variable {ε α β κ σ : Type}

/-! ## Steps that commute -/

/-- Steps that can be taken the other way round can be taken in any order. -/
theorem foldlM_eq_ok_of_perm {f : σ → α → Except ε σ} {l l' : List α} {s t : σ}
    (hcomm : ∀ s a t b u, f s a = .ok t → f t b = .ok u → ∃ t', f s b = .ok t' ∧ f t' a = .ok u)
    (h : l.Perm l') (hfold : l.foldlM f s = .ok t) : l'.foldlM f s = .ok t := by
  induction h generalizing s with
  | nil => exact hfold
  | cons a _ ih =>
      rw [List.foldlM_cons, bind_eq_ok_iff] at hfold ⊢
      obtain ⟨s', hs', hrest⟩ := hfold
      exact ⟨s', hs', ih hrest⟩
  | swap a b l =>
      simp only [List.foldlM_cons, bind_eq_ok_iff] at hfold ⊢
      obtain ⟨s', hs', s'', hs'', hrest⟩ := hfold
      obtain ⟨r, hr, hr'⟩ := hcomm s b s' a s'' hs' hs''
      exact ⟨r, hr, s'', hr', hrest⟩
  | trans _ _ ih ih' => exact ih' (ih hfold)

/-! ## Making members -/

theorem exists_of_map_eq {make : α → Except ε β} {sources : List α} {members : List β} {b : β}
    (h : sources.map make = members.map .ok) (hb : b ∈ members) : ∃ a ∈ sources, make a = .ok b := by
  rw [← List.mem_map, h]
  exact List.mem_map_of_mem hb

/-- Members that are made from permuted sources are permuted. -/
theorem exists_perm_of_map_eq {make : α → Except ε β} {sources sources' : List α} {members : List β}
    (h : sources.Perm sources') (hmake : sources.map make = members.map .ok) :
    ∃ members', sources'.map make = members'.map .ok ∧ members.Perm members' := by
  induction h generalizing members with
  | nil => exact ⟨members, hmake, .refl _⟩
  | cons a _ ih =>
      obtain ⟨b, rest, rfl, hb, hrest⟩ := List.map_eq_cons_iff.mp hmake.symm
      obtain ⟨rest', hrest', hperm⟩ := ih hrest.symm
      exact ⟨b :: rest', by rw [List.map_cons, List.map_cons, hb, hrest'], hperm.cons b⟩
  | swap a a' l =>
      obtain ⟨b, rest, rfl, hb, hrest⟩ := List.map_eq_cons_iff.mp hmake.symm
      obtain ⟨b', rest, rfl, hb', hrest⟩ := List.map_eq_cons_iff.mp hrest
      exact ⟨b' :: b :: rest, by simp [hb, hb', hrest], .swap b' b rest⟩
  | trans _ _ ih ih' =>
      obtain ⟨middle, hmiddle, hperm⟩ := ih hmake
      obtain ⟨last, hlast, hperm'⟩ := ih' hmiddle
      exact ⟨last, hlast, hperm.trans hperm'⟩

/-! ## Sorting -/

/-- Members with different keys are sorted in one way only, if the order tells different keys apart. -/
theorem mergeSort_eq_of_perm {le : α → α → Bool} {key : α → κ} {l l' : List α}
    (htrans : ∀ a b c, le a b = true → le b c = true → le a c = true)
    (htotal : ∀ a b, (le a b || le b a) = true) (h : l.Perm l') (hnodup : (l.map key).Nodup)
    (hanti : ∀ a ∈ l, ∀ b ∈ l, le a b = true → le b a = true → key a = key b) :
    l.mergeSort le = l'.mergeSort le := by
  have hperm : (l.mergeSort le).Perm (l'.mergeSort le) :=
    (List.mergeSort_perm l le).trans (h.trans (List.mergeSort_perm l' le).symm)
  refine hperm.eq_of_pairwise (fun a b ha hb hab hba => ?_) (List.pairwise_mergeSort htrans htotal l)
    (List.pairwise_mergeSort htrans htotal l')
  have hmem : a ∈ l := List.mem_mergeSort.mp ha
  have hmem' : b ∈ l := h.mem_iff.mpr (List.mem_mergeSort.mp hb)
  exact List.inj_on_of_nodup_map hnodup hmem hmem' (hanti a hmem b hmem' hab hba)

/-! ## Members with keys -/

section Appending

variable {make : α → Except ε β} {key : β → κ} {step : List β → α → Except ε (List β)}
variable {sources sources' : List α} {members members' : List β}

/-- What a step does that makes one member and refuses a key that is there. -/
def Appends (make : α → Except ε β) (key : β → κ) (step : List β → α → Except ε (List β)) : Prop :=
  ∀ members a members', step members a = .ok members' ↔
    ∃ b, make a = .ok b ∧ key b ∉ members.map key ∧ members' = members ++ [b]

theorem appends_of_eq [DecidableEq κ] (taken : β → ε)
    (h : ∀ members a, step members a = (make a).bind fun b =>
      if members.any fun member => key member == key b then .error (taken b) else .ok (members ++ [b])) :
    Appends make key step := by
  intro members a members'
  rw [h]
  refine bind_eq_ok_iff.trans (exists_congr fun b => and_congr_right fun _ => ?_)
  simp only [List.any_eq_true, beq_iff_eq, List.mem_map]
  split
  · rename_i htaken
    simp [htaken]
  · rename_i hfree
    rw [Except.ok.injEq, and_iff_right hfree]
    exact eq_comm

theorem nodup_map_snoc {b : β} (h : (members.map key).Nodup) :
    ((members ++ [b]).map key).Nodup ↔ key b ∉ members.map key := by
  rw [List.map_append, List.map_singleton, ← List.concat_eq_append, List.nodup_concat, and_iff_left h]

theorem Appends.foldlM_eq_ok_iff (hstep : Appends make key step) (hnodup : (members.map key).Nodup) :
    sources.foldlM step members = .ok members' ↔
      ∃ added, sources.map make = added.map .ok ∧ members' = members ++ added ∧
        (members'.map key).Nodup := by
  induction sources generalizing members with
  | nil =>
      constructor
      · rintro ⟨⟩
        exact ⟨[], rfl, (List.append_nil _).symm, hnodup⟩
      · rintro ⟨added, hmake, rfl, _⟩
        rw [List.map_eq_nil_iff.mp hmake.symm, List.append_nil]
        rfl
  | cons a sources ih =>
      rw [List.foldlM_cons, bind_eq_ok_iff]
      constructor
      · rintro ⟨_, hfirst, hrest⟩
        obtain ⟨b, hb, hnew, rfl⟩ := (hstep _ _ _).mp hfirst
        obtain ⟨added, hadded, rfl, hall⟩ := (ih ((nodup_map_snoc hnodup).mpr hnew)).mp hrest
        exact ⟨b :: added, by rw [List.map_cons, List.map_cons, hb, hadded], by simp, hall⟩
      · rintro ⟨added, hmake, rfl, hall⟩
        obtain ⟨b, added, rfl, hb, hadded⟩ := List.map_eq_cons_iff.mp hmake.symm
        have hfront : ((members ++ [b]).map key).Nodup := by
          rw [List.append_cons, List.map_append] at hall
          exact (List.nodup_append.mp hall).1
        refine ⟨members ++ [b], (hstep _ _ _).mpr ⟨b, hb.symm, (nodup_map_snoc hnodup).mp hfront, rfl⟩, ?_⟩
        exact (ih hfront).mpr ⟨added, hadded.symm, List.append_cons _ _ _, hall⟩

/-- The order of the sources is the order of the members, and does not matter otherwise. -/
theorem Appends.exists_of_perm (hstep : Appends make key step) (h : sources.Perm sources')
    (hfold : sources.foldlM step [] = .ok members) :
    ∃ members', sources'.foldlM step [] = .ok members' ∧ members.Perm members' ∧
      (members.map key).Nodup := by
  have hnil : (([] : List β).map key).Nodup := List.nodup_nil
  obtain ⟨added, hadded, rfl, hnodup⟩ := (hstep.foldlM_eq_ok_iff hnil).mp hfold
  obtain ⟨added', hadded', hperm⟩ := exists_perm_of_map_eq h hadded
  refine ⟨added', (hstep.foldlM_eq_ok_iff hnil).mpr ⟨added', hadded', rfl, ?_⟩, hperm, hnodup⟩
  exact (hperm.map key).nodup_iff.mp hnodup

/-- A table that is sorted by its keys is the same in whatever order its members are made. -/
theorem Appends.sorted_of_perm [LE κ] [DecidableLE κ] [Std.IsLinearOrder κ] {table : List β}
    (hstep : Appends make key step) (h : sources.Perm sources')
    (hmade : (do
      let members ← sources.foldlM step []
      return members.mergeSort fun a b => key a ≤ key b) = .ok table) :
    (do
      let members ← sources'.foldlM step []
      return members.mergeSort fun a b => key a ≤ key b) = .ok table := by
  obtain ⟨members, hfold, hsort⟩ := bind_eq_ok_iff.mp hmade
  cases hsort
  obtain ⟨members', hfold', hperm, hnodup⟩ := hstep.exists_of_perm h hfold
  refine bind_eq_ok_iff.mpr ⟨members', hfold', congrArg Except.ok ?_⟩
  refine (mergeSort_eq_of_perm ?_ ?_ hperm hnodup ?_).symm
  · simpa using fun a b c => Std.le_trans
  · simpa using fun a b => Std.le_total
  · simpa using fun a _ b _ => Std.le_antisymm

end Appending

end GCode
