import GCode.Proofs.Evaluation.References

/-!
# More parameters

Parameters that have all the values of others evaluate what these evaluate, to the same value, however deep
one reference stands in the index of another. Only a look-up that found nothing can come out differently.
-/

namespace GCode

variable {p q : Parameters}

/-- Every value of `p` is one of `q` too. -/
structure Parameters.Extends (q p : Parameters) : Prop where
  numbered : ∀ n x, p.numbered n = some x → q.numbered n = some x
  named : ∀ name x, p.named name = some x → q.named name = some x

namespace Evaluation

/-- An outcome stays what it is, unless it is that a parameter has no value. -/
def Settled (before after : Except EvaluationError Float) : Prop :=
  (∃ index, before = .error (.unknownParameter index)) ∨ after = before

theorem Settled.refl (outcome : Except EvaluationError Float) : Settled outcome outcome :=
  .inr rfl

theorem Settled.bind {before after : Except EvaluationError Float}
    {f g : Float → Except EvaluationError Float} (h : Settled before after)
    (hnext : ∀ x, Settled (f x) (g x)) : Settled (before >>= f) (after >>= g) := by
  rcases h with ⟨index, rfl⟩ | rfl
  · exact .inl ⟨index, rfl⟩
  · cases after with
    | ok x => exact hnext x
    | error e => exact .inr rfl

theorem Settled.found {before after : Option Float} {index : String}
    (h : ∀ x, before = some x → after = some x) :
    Settled (Parameters.found before index) (Parameters.found after index) := by
  cases before with
  | none => exact .inl ⟨index, rfl⟩
  | some x => rw [h x rfl]; exact .refl _

theorem Settled.ok {before after : Except EvaluationError Float} {x : Float} (h : Settled before after)
    (hx : before = .ok x) : after = .ok x := by
  subst hx
  rcases h with ⟨_, herror⟩ | rfl
  · cases herror
  · rfl

theorem Settled.error {before after : Except EvaluationError Float} {e : EvaluationError}
    (h : Settled before after) (he : before = .error e) (hknown : ∀ index, e ≠ .unknownParameter index) :
    after = .error e := by
  subst he
  rcases h with ⟨index, herror⟩ | rfl
  · cases herror
    exact (hknown index rfl).elim
  · rfl

end Evaluation

open Evaluation

mutual
theorem RealValue.eval_settled (h : q.Extends p) :
    (v : RealValue) → Settled (v.eval (some p)) (v.eval (some q))
  | .literal _ => by simp only [RealValue.eval]; exact .refl _
  | .parameter index => by simp only [RealValue.eval]; exact index.lookup_settled h
  | .unary _ arg => by
      simp only [RealValue.eval]
      exact (arg.eval_settled h).bind fun _ => .refl _
  | .binary _ left right => by
      simp only [RealValue.eval]
      exact (left.eval_settled h).bind fun _ => (right.eval_settled h).bind fun _ => .refl _

theorem ParameterIndex.lookup_settled (h : q.Extends p) :
    (index : ParameterIndex) → Settled (index.lookup p) (index.lookup q)
  | .number n => by simp only [ParameterIndex.lookup]; exact .found (h.numbered n)
  | .named name => by simp only [ParameterIndex.lookup]; exact .found (h.named name)
  | .expression value => by
      simp only [ParameterIndex.lookup]
      -- both look-ups come to the same index, because they evaluate it to the same value
      refine (value.eval_settled h).bind fun x => .found fun y hy => ?_
      obtain ⟨n, hn, hread⟩ := Option.bind_eq_some_iff.mp hy
      rw [hn]
      exact h.numbered n y hread
end

/-- With more parameters a value stays the same, and so does an error other than that of a missing
parameter. -/
theorem RealValue.evaluateWith_extends (h : q.Extends p) (v : RealValue) :
    (∀ x, v.evaluateWith p = .ok x → v.evaluateWith q = .ok x) ∧
      ∀ e, v.evaluateWith p = .error e → (∀ index, e ≠ .unknownParameter index) →
        v.evaluateWith q = .error e :=
  ⟨fun _ => (v.eval_settled h).ok, fun _ => (v.eval_settled h).error⟩

/-- The sample, with a value for every name too. -/
def Parameters.namedSample : Parameters :=
  { Parameters.sample with named := fun _ => some 1.0 }

/-- `#[##2 - 13]` -/
def RealValue.nested : RealValue :=
  parameter (.expression (binary .subtract (parameter (.expression (parameter (.number 2))))
    (literal (.integer 13))))

theorem RealValue.evaluateWith_extends_nested :
    Parameters.namedSample.Extends .sample ∧
      nested.evaluateWith .sample = .ok 3.0 ∧ nested.evaluateWith .namedSample = .ok 3.0 := by
  have hextends : Parameters.namedSample.Extends .sample :=
    ⟨fun _ _ => id, fun _ _ hnone => by cases hnone⟩
  have hvalue : nested.evaluateWith .sample = .ok 3.0 := by decide +kernel
  exact ⟨hextends, hvalue, (evaluateWith_extends hextends nested).1 _ hvalue⟩

end GCode
