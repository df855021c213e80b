import TradeRules.Expr.Eval
import TradeRules.Proofs.Expr.Call

/-!
# How an evaluation comes about

An expression is evaluated operand by operand, from the left, and a call is looked up without its
arguments being evaluated; `Expr.evalInduction` is the induction that follows this. The value of an
operator, or the reason why there is none, is traced back to its operands: an error is that of the
first operand which has one, or else that of the operator itself, which finds an operand of
the wrong kind or divides by zero (`EvalError.OfOperator`).
-/

namespace TradeRules

variable {α : Type}

/-- What goes wrong at an operator whose operands have values. -/
inductive EvalError.OfOperator : EvalError α → Prop where
  /-- An operand is of the wrong kind. -/
  | typeMismatch (op : BinaryOp) (expected : Expectation) (found : ValueKind) :
    OfOperator (.typeMismatch op expected found)
  /-- A divisor is zero. -/
  | divisionByZero : OfOperator .divisionByZero

/-- Induction over what is evaluated of an expression: a call counts as a leaf. -/
@[elab_as_elim]
theorem Expr.evalInduction {motive : Expr α → Prop} (literal : ∀ x, motive (.literal x))
    (name : ∀ n, motive (.name n)) (call : ∀ f args, motive (.call f args))
    (not : ∀ e, motive e → motive (.not e))
    (binary : ∀ op l r, motive l → motive r → motive (.binary op l r)) : ∀ e, motive e
  | .literal x => literal x
  | .name n => name n
  | .call f args => call f args
  | .not e => not e (evalInduction literal name call not binary e)
  | .binary op l r => binary op l r (evalInduction literal name call not binary l)
      (evalInduction literal name call not binary r)

variable [Scalar α]

namespace Value

/-- What holds is not absent. -/
theorem isAbsent_of_holds {v : Value α} (h : v.holds = true) : v.isAbsent = false := by
  cases v with
  | truth _ | number _ => rfl
  | absent => cases h

/-- What is absent does not hold, so it takes no rule of its own for both values to hold. -/
theorem both_eq (x y : Value α) : both x y = (x.holds && y.holds) := by
  cases x with
  | truth _ | number _ => cases y <;> simp [both, isAbsent, holds]
  | absent => rfl

/-- What is absent does not hold, so it takes no rule of its own for either value to hold. -/
theorem either_eq (x y : Value α) : either x y = (x.holds || y.holds) := by
  cases x with
  | truth _ | number _ => cases y <;> simp [either, holds]
  | absent => cases y <;> rfl

/-- `AND` reads its operands only for whether they hold. -/
theorem apply_and (x y : Value α) : apply .and x y = .ok (.truth (x.holds && y.holds)) := by
  rw [apply, both_eq]

/-- `OR` reads its operands only for whether they hold. -/
theorem apply_or (x y : Value α) : apply .or x y = .ok (.truth (x.holds || y.holds)) := by
  rw [apply, either_eq]

/-- Arithmetic has a value at two numbers, which is a number, and where an operand is absent, where
it is absent. -/
theorem absent_or_numbers_of_compute {a : Arithmetic} {x y v : Value α} (h : compute a x y = .ok v) :
    (x.isAbsent = true ∨ y.isAbsent = true) ∧ v = .absent ∨
      ∃ m n z, x = .number m ∧ y = .number n ∧ v = .number z := by
  unfold compute at h
  split at h
  · cases h
    exact .inl ⟨.inl rfl, rfl⟩
  · cases h
    exact .inl ⟨.inr rfl, rfl⟩
  · rename_i m n
    cases a with
    | add | sub | mul =>
      cases h
      exact .inr ⟨m, n, _, rfl, rfl, rfl⟩
    | div =>
      simp only at h
      split at h <;> cases h
      exact .inr ⟨m, n, _, rfl, rfl, rfl⟩
  · cases h

/-- Comparing goes wrong at operands of the wrong kind only. -/
theorem ofOperator_of_compare {c : Comparison} {x y : Value α} {err : EvalError α}
    (h : compare c x y = .error err) : err.OfOperator := by
  unfold compare at h
  split at h
  · cases h
  · cases h
  · cases h
  · cases h
  · split at h <;> cases h
    exact .typeMismatch _ _ _
  · split at h <;> cases h <;> exact .typeMismatch _ _ _

/-- Computing goes wrong at operands of the wrong kind, or at a divisor that is zero. -/
theorem ofOperator_of_compute {a : Arithmetic} {x y : Value α} {err : EvalError α}
    (h : compute a x y = .error err) : err.OfOperator := by
  unfold compute at h
  split at h
  · cases h
  · cases h
  · split at h
    · cases h
    · cases h
    · cases h
    · split at h <;> cases h
      exact .divisionByZero
  · cases h
    exact .typeMismatch _ _ _

/-- What goes wrong at an operator is an operand of the wrong kind, or a divisor that is zero. -/
theorem ofOperator_of_apply {op : BinaryOp} {x y : Value α} {err : EvalError α}
    (h : apply op x y = .error err) : err.OfOperator := by
  cases op with
  | or | and => cases h
  | compute a => exact ofOperator_of_compute h
  | compare c =>
    rw [apply] at h
    split at h
    · cases h
    · rename_i herror
      cases h
      exact ofOperator_of_compare herror

end Value

namespace Expr

variable {c : Context α} {e l r : Expr α} {op : BinaryOp} {v : Value α} {err : EvalError α}

/-- A negation has a value where its operand has one. -/
theorem eval_not_eq_ok_iff :
    (not e).eval c = .ok v ↔ ∃ x, e.eval c = .ok x ∧ v = .truth (!x.holds) := by
  rw [eval]
  cases h : e.eval c with
  | error e => simp only [reduceCtorEq, false_and, exists_false]
  | ok x => simp only [Except.ok.injEq, exists_eq_left', eq_comm]

/-- A negation fails with the error of its operand. -/
theorem eval_not_eq_error_iff : (not e).eval c = .error err ↔ e.eval c = .error err := by
  rw [eval]
  cases h : e.eval c with
  | error e => exact Iff.rfl
  | ok x => simp only [reduceCtorEq]

/-- An operator has a value where both operands have one and it has a value at these. -/
theorem eval_binary_eq_ok_iff :
    (binary op l r).eval c = .ok v ↔
      ∃ x y, l.eval c = .ok x ∧ r.eval c = .ok y ∧ Value.apply op x y = .ok v := by
  rw [eval]
  cases hl : l.eval c with
  | error e => simp only [reduceCtorEq, false_and, exists_false]
  | ok x =>
    cases hr : r.eval c with
    | error e => simp only [reduceCtorEq, false_and, and_false, exists_false]
    | ok y => simp only [Except.ok.injEq, exists_and_left, exists_eq_left']

/-- An operator fails with the error of its left operand, or else of its right operand, or else with
its own at their values. -/
theorem eval_binary_eq_error_iff :
    (binary op l r).eval c = .error err ↔
      l.eval c = .error err ∨ ∃ x, l.eval c = .ok x ∧
        (r.eval c = .error err ∨ ∃ y, r.eval c = .ok y ∧ Value.apply op x y = .error err) := by
  rw [eval]
  cases hl : l.eval c with
  | error e => simp only [reduceCtorEq, false_and, exists_false, or_false, Except.error.injEq]
  | ok x =>
    cases hr : r.eval c with
    | error e => simp
    | ok y => simp

/-- A condition holds or does not hold where its value is not absent. -/
theorem fires_eq_ok_iff {b : Bool} :
    e.fires c = .ok b ↔ ∃ v, e.eval c = .ok v ∧ v.isAbsent = false ∧ v.holds = b := by
  rw [fires]
  cases h : e.eval c with
  | error e => simp
  | ok v => cases v <;> simp [Value.isAbsent]

instance (c : Context α) (e : Expr α) (b : Bool) : Decidable (e.fires c = .ok b) :=
  decidable_of_iff ((e.fires c).toOption = some b) <| by
    cases e.fires c with
    | ok a => exact ⟨fun h => congrArg Except.ok (Option.some.inj h), fun h => by cases h; rfl⟩
    | error err => exact iff_of_false (by rintro ⟨⟩) (by rintro ⟨⟩)

/-- A condition fails where it has no value, or an absent one. -/
theorem fires_eq_error_iff :
    e.fires c = .error err ↔
      e.eval c = .error err ∨ e.eval c = .ok .absent ∧ err = .unsupportedResult .absent := by
  rw [fires]
  cases h : e.eval c with
  | error e => simp
  | ok v => cases v <;> simp [eq_comm]

end Expr

end TradeRules
