import GCode.Proofs.Result
import GCode.Value.Evaluate

/-!
# References

The outermost references of a value are those that stand in no index. A value reads the parameters through
them alone. So they can be resolved before the value is evaluated, and a value without a reference does not
depend on the parameters.
-/

namespace GCode

variable {parameters parameters' : Option Parameters} {p : Parameters}

/-! ## The references of a value -/

namespace RealValue

/-- The indices of the outermost references, from left to right. -/
def references : RealValue → List ParameterIndex
  | literal _ => []
  | parameter index => [index]
  | unary _ arg => arg.references
  | binary _ left right => left.references ++ right.references

/-- The value with others in place of its outermost references. -/
def substitute (f : ParameterIndex → RealValue) : RealValue → RealValue
  | literal number => literal number
  | parameter index => f index
  | unary op arg => unary op (arg.substitute f)
  | binary op left right => binary op (left.substitute f) (right.substitute f)

/-- The second value stands in the first one, be it in an index. -/
inductive Contains : RealValue → RealValue → Prop where
  | refl (v) : Contains v v
  | unary {op arg v} : Contains arg v → Contains (unary op arg) v
  | left {op left right v} : Contains left v → Contains (binary op left right) v
  | right {op left right v} : Contains right v → Contains (binary op left right) v
  | index {value v} : Contains value v → Contains (parameter (.expression value)) v

theorem contains_of_mem_references {index : ParameterIndex} :
    (v : RealValue) → index ∈ v.references → v.Contains (parameter index)
  | literal _, h => by simp only [references, List.not_mem_nil] at h
  | parameter _, h => by
      rw [references, List.mem_singleton] at h
      rw [h]
      exact .refl _
  | unary _ arg, h => .unary (contains_of_mem_references arg h)
  | binary _ left right, h => by
      rw [references, List.mem_append] at h
      rcases h with h | h
      · exact .left (contains_of_mem_references left h)
      · exact .right (contains_of_mem_references right h)

theorem Contains.exists_mem_references {v : RealValue} {index : ParameterIndex}
    (h : v.Contains (parameter index)) : ∃ outer, outer ∈ v.references := by
  generalize hw : parameter index = w at h
  induction h with
  | refl =>
      subst hw
      exact ⟨index, List.mem_singleton_self index⟩
  | unary _ ih => exact ih hw
  | left _ ih =>
      obtain ⟨outer, houter⟩ := ih hw
      exact ⟨outer, List.mem_append_left _ houter⟩
  | right _ ih =>
      obtain ⟨outer, houter⟩ := ih hw
      exact ⟨outer, List.mem_append_right _ houter⟩
  -- a reference in an index stands in the one with that index
  | index => exact ⟨_, List.mem_singleton_self _⟩

theorem hasParameters_iff : (v : RealValue) → (v.hasParameters = true ↔ ∃ index, index ∈ v.references)
  | literal _ => by simp [hasParameters, references]
  | parameter _ => by simp [hasParameters, references]
  | unary _ arg => hasParameters_iff arg
  | binary _ left right => by
      simp only [hasParameters, references, Bool.or_eq_true, List.mem_append, exists_or,
        hasParameters_iff left, hasParameters_iff right]

theorem hasParameters_iff_contains {v : RealValue} :
    v.hasParameters = true ↔ ∃ index, v.Contains (parameter index) := by
  rw [hasParameters_iff]
  constructor
  · rintro ⟨index, hindex⟩
    exact ⟨index, contains_of_mem_references v hindex⟩
  · rintro ⟨_, hcontains⟩
    exact hcontains.exists_mem_references

/-! ## Evaluating by the references -/

/-- What stands in place of a reference is evaluated as the reference is. -/
theorem eval_substitute {f : ParameterIndex → RealValue} :
    (v : RealValue) →
      (∀ index ∈ v.references, (f index).eval parameters' = (parameter index).eval parameters) →
      (v.substitute f).eval parameters' = v.eval parameters
  | literal _, _ => by simp only [substitute, eval]
  | parameter index, h => h index (List.mem_singleton_self index)
  | unary _ arg, h => by simp only [substitute, eval, eval_substitute arg h]
  | binary _ left right, h => by
      obtain ⟨hleft, hright⟩ := List.forall_mem_append.mp h
      simp only [substitute, eval, eval_substitute left hleft, eval_substitute right hright]

theorem substitute_parameter : (v : RealValue) → v.substitute parameter = v
  | literal _ => rfl
  | parameter _ => rfl
  | unary _ arg => by rw [substitute, substitute_parameter arg]
  | binary _ left right => by rw [substitute, substitute_parameter left, substitute_parameter right]

/-- The parameters matter only where the references read them. -/
theorem eval_congr {v : RealValue}
    (h : ∀ index ∈ v.references, (parameter index).eval parameters' = (parameter index).eval parameters) :
    v.eval parameters' = v.eval parameters := by
  rw [← eval_substitute v h, substitute_parameter]

/-- No operator passes over a reference that fails. -/
theorem forall_references_of_eval_eq_ok :
    (v : RealValue) → {x : Float} → v.eval parameters = .ok x →
      ∀ index ∈ v.references, ∃ y, (parameter index).eval parameters = .ok y
  | literal _, _, _ => by simp [references]
  | parameter _, x, h => by
      rw [references, List.forall_mem_singleton]
      exact ⟨x, h⟩
  | unary _ arg, _, h => by
      rw [eval, bind_eq_ok_iff] at h
      obtain ⟨_, harg, _⟩ := h
      exact forall_references_of_eval_eq_ok arg harg
  | binary _ left right, _, h => by
      simp only [eval, bind_eq_ok_iff] at h
      obtain ⟨_, hleft, _, hright, _⟩ := h
      rw [references, List.forall_mem_append]
      exact ⟨forall_references_of_eval_eq_ok left hleft, forall_references_of_eval_eq_ok right hright⟩

end RealValue

/-! ## Values without references -/

/-- Whether the error is that a parameter could not be read. -/
def EvaluationError.concernsParameter : EvaluationError → Bool
  | unresolvedParameter _ | unknownParameter _ => true
  | divisionByZero _ | undefined _ _ => false

theorem UnaryOperator.concernsParameter_of_apply {op : UnaryOperator} {x : Float} {e : EvaluationError}
    (h : op.apply x = .error e) : e.concernsParameter = false := by
  simp only [apply] at h
  split at h
  · cases h
  · cases h
    rfl

theorem BinaryOperator.concernsParameter_of_apply {op : BinaryOperator} {x y : Float} {e : EvaluationError}
    (h : op.apply x y = .error e) : e.concernsParameter = false := by
  simp only [apply] at h
  split at h
  · cases h
    rfl
  · split at h
    · cases h
    · cases h
      rfl

/-- `#2` is 3 and `#3` is 15. -/
def Parameters.sample : Parameters where
  numbered := fun n => if n = 2 then some 3.0 else if n = 3 then some 15.0 else none

namespace RealValue

/-- `[[1 + ##2] / [#2 - 3]]` -/
def sample : RealValue :=
  binary .divide
    (binary .add (literal (.integer 1)) (parameter (.expression (parameter (.number 2)))))
    (binary .subtract (parameter (.number 2)) (literal (.integer 3)))

/-- An error about a parameter is that of one of the references. -/
theorem exists_reference_of_eval_eq_error {e : EvaluationError} (he : e.concernsParameter = true) :
    (v : RealValue) → v.eval parameters = .error e →
      ∃ index ∈ v.references, (parameter index).eval parameters = .error e
  | literal _, h => by simp only [eval, reduceCtorEq] at h
  | parameter index, h => ⟨index, List.mem_singleton_self index, h⟩
  | unary _ arg, h => by
      rw [eval, bind_eq_error_iff] at h
      rcases h with harg | ⟨_, _, happly⟩
      · exact exists_reference_of_eval_eq_error he arg harg
      · cases he.symm.trans (UnaryOperator.concernsParameter_of_apply happly)
  | binary _ left right, h => by
      simp only [eval, bind_eq_error_iff] at h
      rcases h with hleft | ⟨_, _, hright | ⟨_, _, happly⟩⟩
      · obtain ⟨index, hindex, hread⟩ := exists_reference_of_eval_eq_error he left hleft
        exact ⟨index, List.mem_append_left _ hindex, hread⟩
      · obtain ⟨index, hindex, hread⟩ := exists_reference_of_eval_eq_error he right hright
        exact ⟨index, List.mem_append_right _ hindex, hread⟩
      · cases he.symm.trans (BinaryOperator.concernsParameter_of_apply happly)

/-- A value that has no reference anywhere is evaluated alike with all parameters and without any, and no
parameter is missing. One that has a reference cannot be evaluated without parameters. -/
theorem hasParameters_decides (v : RealValue) :
    (v.hasParameters = true ↔ ∃ index, v.Contains (parameter index)) ∧
      (v.hasParameters = false → ∀ p : Parameters, v.evaluateWith p = v.evaluate ∧
        ∀ index, v.evaluateWith p ≠ .error (.unresolvedParameter index) ∧
          v.evaluateWith p ≠ .error (.unknownParameter index)) ∧
      (v.hasParameters = true → ∃ e, v.evaluate = .error e) := by
  refine ⟨hasParameters_iff_contains, fun hno p => ?_, fun hhas => ?_⟩
  · have hnone : ∀ index, index ∉ v.references := by
      intro index hindex
      cases hno.symm.trans ((hasParameters_iff v).mpr ⟨index, hindex⟩)
    have hread {e : EvaluationError} (he : e.concernsParameter = true) : v.evaluateWith p ≠ .error e := by
      intro herror
      obtain ⟨index, hindex, _⟩ := exists_reference_of_eval_eq_error he v herror
      exact hnone index hindex
    exact ⟨eval_congr fun index hindex => (hnone index hindex).elim,
      fun index => ⟨hread rfl, hread rfl⟩⟩
  · obtain ⟨index, hindex⟩ := (hasParameters_iff v).mp hhas
    cases heval : v.evaluate with
    | error e => exact ⟨e, rfl⟩
    | ok x =>
        obtain ⟨_, hread⟩ := forall_references_of_eval_eq_ok v heval index hindex
        simp only [eval, reduceCtorEq] at hread

/-- `[1 / 0]` fails alike with parameters and without. -/
theorem hasParameters_decides_sample :
    ((binary .divide (literal (.integer 1)) (literal (.integer 0))).hasParameters = false ∧
        (binary .divide (literal (.integer 1)) (literal (.integer 0))).evaluateWith .sample =
          (binary .divide (literal (.integer 1)) (literal (.integer 0))).evaluate) ∧
      sample.hasParameters = true ∧ ∃ e, sample.evaluate = .error e :=
  ⟨⟨rfl, ((hasParameters_decides _).2.1 rfl .sample).1⟩, rfl, (hasParameters_decides sample).2.2 rfl⟩

end RealValue

/-! ## Resolving -/

/-- The literal of the parameter's value. A parameter without a value stays a reference. -/
def ParameterIndex.resolve (p : Parameters) (index : ParameterIndex) : RealValue :=
  match index.lookup p with
  | .ok x => .literal (.decimal x)
  | .error _ => .parameter index

namespace RealValue

/-- The value with literals in place of its outermost references. -/
def resolve (p : Parameters) (v : RealValue) : RealValue :=
  v.substitute (ParameterIndex.resolve p)

/-- All outermost references have a value. -/
def Resolvable (p : Parameters) (v : RealValue) : Prop :=
  ∀ index ∈ v.references, ∃ x, index.lookup p = .ok x

theorem Resolvable.evaluateWith_eq {v : RealValue} (h : v.Resolvable p) :
    v.evaluateWith p = (v.resolve p).evaluate := by
  symm
  apply eval_substitute v
  intro index hindex
  obtain ⟨x, hx⟩ := h index hindex
  simp only [ParameterIndex.resolve, eval, hx, Number.value]

theorem resolvable_of_evaluateWith {v : RealValue} {x : Float} (h : v.evaluateWith p = .ok x) :
    v.Resolvable p := by
  intro index hindex
  obtain ⟨y, hy⟩ := forall_references_of_eval_eq_ok v h index hindex
  rw [eval] at hy
  exact ⟨y, hy⟩

/-- Evaluating with parameters is resolving the outermost references and then evaluating without any. -/
theorem evaluateWith_resolve (p : Parameters) (v : RealValue) :
    (∀ x, v.evaluateWith p = .ok x ↔ v.Resolvable p ∧ (v.resolve p).evaluate = .ok x) ∧
      (v.Resolvable p → ∀ e, v.evaluateWith p = .error e ↔ (v.resolve p).evaluate = .error e) := by
  refine ⟨fun x => ⟨fun h => ?_, ?_⟩, fun hresolvable e => ?_⟩
  · have hresolvable := resolvable_of_evaluateWith h
    exact ⟨hresolvable, hresolvable.evaluateWith_eq ▸ h⟩
  · rintro ⟨hresolvable, h⟩
    rwa [hresolvable.evaluateWith_eq]
  · rw [hresolvable.evaluateWith_eq]

/-- The sample resolves to `[[1 + 15.0] / [3.0 - 3]]`. -/
theorem evaluateWith_resolve_sample :
    sample.Resolvable .sample ∧
      sample.evaluateWith .sample = .error (.divisionByZero .divide) ∧
      (sample.resolve .sample).evaluate = .error (.divisionByZero .divide) := by
  have hresolvable : sample.Resolvable .sample := by
    have hreferences : sample.references = [.expression (parameter (.number 2)), .number 2] := rfl
    rw [Resolvable, hreferences, List.forall_mem_cons, List.forall_mem_singleton]
    exact ⟨⟨15.0, by decide +kernel⟩, ⟨3.0, by decide +kernel⟩⟩
  have herror : sample.evaluateWith .sample = .error (.divisionByZero .divide) := by decide +kernel
  exact ⟨hresolvable, herror, ((evaluateWith_resolve .sample sample).2 hresolvable _).mp herror⟩

end RealValue

end GCode
