/-!
# Results of checked operations

How an operation that may be refused comes to succeed or to fail.
-/

namespace GCode

variable {ε ε' α β σ : Type}

instance decidableEqExcept [DecidableEq ε] [DecidableEq α] : DecidableEq (Except ε α)
  | .ok a, .ok b => decidable_of_iff (a = b) (by simp)
  | .error d, .error e => decidable_of_iff (d = e) (by simp)
  | .ok _, .error _ => isFalse (by simp)
  | .error _, .ok _ => isFalse (by simp)

theorem map_eq_ok_iff {r : Except ε α} {f : α → β} {b : β} :
    r.map f = .ok b ↔ ∃ a, r = .ok a ∧ f a = b := by
  cases r <;> simp [Except.map]

theorem bind_eq_ok_iff {r : Except ε α} {f : α → Except ε β} {b : β} :
    r >>= f = .ok b ↔ ∃ a, r = .ok a ∧ f a = .ok b := by
  cases r <;> simp [bind, Except.bind]

theorem mapError_eq_ok_iff {r : Except ε α} {f : ε → ε'} {a : α} :
    r.mapError f = .ok a ↔ r = .ok a := by
  cases r with
  | ok b => constructor <;> rintro ⟨⟩ <;> rfl
  | error e => constructor <;> rintro ⟨⟩

theorem map_eq_error_iff {r : Except ε α} {f : α → β} {e : ε} : r.map f = .error e ↔ r = .error e := by
  cases r <;> simp [Except.map]

theorem mapError_eq_error_iff {r : Except ε α} {f : ε → ε'} {e' : ε'} :
    r.mapError f = .error e' ↔ ∃ e, r = .error e ∧ f e = e' := by
  cases r with
  | ok a =>
      constructor
      · rintro ⟨⟩
      · rintro ⟨_, ⟨⟩, _⟩
  | error e =>
      constructor
      · rintro ⟨⟩
        exact ⟨e, rfl, rfl⟩
      · rintro ⟨_, ⟨⟩, rfl⟩
        rfl

theorem bind_eq_error_iff {r : Except ε α} {f : α → Except ε β} {e : ε} :
    r >>= f = .error e ↔ r = .error e ∨ ∃ a, r = .ok a ∧ f a = .error e := by
  cases r <;> simp [bind, Except.bind]

/-! ## Operations on every member of a list -/

theorem mapM_eq_ok_iff {f : α → Except ε β} {l : List α} {bs : List β} :
    l.mapM f = .ok bs ↔ l.map f = bs.map .ok := by
  induction l generalizing bs with
  | nil => cases bs <;> simp [pure, Except.pure]
  | cons a l ih =>
      rw [List.mapM_cons, bind_eq_ok_iff]
      simp only [bind_eq_ok_iff, ih]
      cases bs <;> simp [pure, Except.pure]

/-- The whole is refused for one of the members. -/
theorem exists_of_mapM_eq_error {f : α → Except ε β} {l : List α} {e : ε} (h : l.mapM f = .error e) :
    ∃ a ∈ l, f a = .error e := by
  induction l with
  | nil => cases h
  | cons a l ih =>
      rw [List.mapM_cons] at h
      cases ha : f a with
      | error d =>
          rw [ha] at h
          cases h
          exact ⟨a, List.mem_cons_self, ha⟩
      | ok b =>
          cases hl : l.mapM f with
          | ok bs => rw [ha, hl] at h; cases h
          | error d =>
              rw [ha, hl] at h
              cases h
              obtain ⟨c, hc, hfail⟩ := ih hl
              exact ⟨c, List.mem_cons_of_mem a hc, hfail⟩

/-- What holds at the start and is kept by every step holds at the end. `done` is the part of the list
that the steps have taken. -/
theorem of_foldlM_eq_ok {f : σ → α → Except ε σ} {motive : List α → σ → Prop} {l : List α} {s t : σ}
    (h : l.foldlM f s = .ok t) (start : motive [] s)
    (step : ∀ done a s t, a ∈ l → motive done s → f s a = .ok t → motive (done ++ [a]) t) :
    motive l t := by
  suffices ∀ done, motive done s → motive (done ++ l) t from this [] start
  clear start
  intro done hdone
  induction l generalizing done s with
  | nil =>
      cases h
      simpa using hdone
  | cons a l ih =>
      rw [List.foldlM_cons, bind_eq_ok_iff] at h
      obtain ⟨s', hs', hrest⟩ := h
      have hstep := step done a s s' List.mem_cons_self hdone hs'
      have := ih hrest (fun done b u v hb => step done b u v (List.mem_cons_of_mem a hb)) (done ++ [a]) hstep
      simpa using this

end GCode
