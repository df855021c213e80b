import TradeRules.Proofs.Expr.Evaluation

/-!
# Checking and evaluating agree

What the check against the vocabulary accepts is evaluated without a word about the vocabulary: it
has a value, or an operator of it goes wrong. What the check rejects has no value in any context,
and if the evaluation blames the vocabulary, it blames what the check does
(`Expr.eval_agrees_validate`). An operator to the left may still go wrong first.
-/

namespace TradeRules

variable {α : Type}

/-- The function that an offence against the vocabulary is about, if it is about a call. -/
def VocabularyError.function? : VocabularyError α → Option String
  | .unknownFunction f => some f
  | .wrongArity f _ => some f
  | .nonLiteralArgument f => some f
  | .nonIntegerPeriod f _ => some f
  | .nonPositivePeriod f _ => some f
  | .unknownProperty _ => none

/-- `Blames err v`: an evaluation that fails with `err` has met the offence `v`. -/
inductive EvalError.Blames : EvalError α → VocabularyError α → Prop where
  /-- The name is the one that means no property. -/
  | name (n : String) : Blames (.unknownName n) (.unknownProperty n)
  /-- The function is the one that the offence is about, and the offence is the reason. -/
  | call {f : String} {v : VocabularyError α} (h : v.function? = some f) :
    Blames (.invalidCall f v) v

variable [Scalar α]

/-- A call that means no indicator offends as a call of its own function. -/
theorem function?_of_resolveCall {f : String} {args : List (Expr α)} {v : VocabularyError α}
    (h : resolveCall f args = .error v) : v.function? = some f := by
  cases resolveCall_eq_error_iff.1 h <;> rfl

namespace Expr

variable {c : Context α} {e l r : Expr α} {op : BinaryOp} {v : VocabularyError α}
  {err : EvalError α}

instance (e : Expr α) : Decidable (e.validate = .ok ()) :=
  decidable_of_iff (e.validate.isOk = true) <| by
    cases e.validate with
    | ok u => exact iff_of_true rfl rfl
    | error v => exact iff_of_false Bool.false_ne_true (by rintro ⟨⟩)

/-- An operator is accepted where both operands are. -/
theorem validate_binary_eq_ok_iff :
    (binary op l r).validate = .ok () ↔ l.validate = .ok () ∧ r.validate = .ok () := by
  rw [validate]
  cases h : l.validate with
  | ok u => simp only [true_and]
  | error v => simp only [reduceCtorEq, false_and]

/-- An operator is rejected for its left operand, or else for its right one. -/
theorem validate_binary_eq_error_iff :
    (binary op l r).validate = .error v ↔
      l.validate = .error v ∨ l.validate = .ok () ∧ r.validate = .error v := by
  rw [validate]
  cases h : l.validate with
  | ok u => simp only [reduceCtorEq, true_and, false_or]
  | error v => simp only [reduceCtorEq, false_and, or_false]

/-- A call is accepted where it means an indicator. -/
theorem validate_call_eq_ok_iff {f : String} {args : List (Expr α)} :
    (call f args).validate = .ok () ↔ ∃ i, resolveCall f args = .ok i := by
  rw [validate]
  cases h : resolveCall f args with
  | ok i => exact iff_of_true rfl ⟨i, rfl⟩
  | error v => simp only [reduceCtorEq, exists_false]

/-- Every call in an expression that is accepted means an indicator. -/
theorem exists_resolveCall_of_mem_calls {f : String} {args : List (Expr α)}
    (hvalid : e.validate = .ok ()) (h : (f, args) ∈ e.calls) :
    ∃ i, resolveCall f args = .ok i := by
  induction e using evalInduction with
  | literal _ | name _ => simp [calls] at h
  | call g as =>
    obtain ⟨i, hi⟩ := validate_call_eq_ok_iff.1 hvalid
    obtain ⟨x, rfl⟩ := eq_literal_of_resolveCall hi
    simp only [calls, callsIn, List.append_nil, List.mem_singleton, Prod.mk.injEq] at h
    obtain ⟨rfl, rfl⟩ := h
    exact ⟨i, hi⟩
  | not e ih =>
    rw [calls] at h
    exact ih hvalid h
  | binary op l r ihl ihr =>
    rw [calls] at h
    obtain ⟨hl, hr⟩ := validate_binary_eq_ok_iff.1 hvalid
    rcases List.mem_append.1 h with h | h
    · exact ihl hl h
    · exact ihr hr h

/-- What is rejected has no value in any context. -/
theorem exists_eval_eq_error_of_validate (h : e.validate = .error v) :
    ∃ err, e.eval c = .error err := by
  induction e using evalInduction with
  | literal x => cases h
  | name n =>
    rw [validate] at h
    split at h
    · cases h
    · rename_i hname
      exact ⟨.unknownName n, by simp only [eval, hname]⟩
  | call f args =>
    rw [validate] at h
    split at h
    · cases h
    · rename_i reason hcall
      exact ⟨.invalidCall f reason, by simp only [eval, hcall]⟩
  | not e ih =>
    obtain ⟨err, herr⟩ := ih h
    exact ⟨err, eval_not_eq_error_iff.2 herr⟩
  | binary op l r ihl ihr =>
    rcases validate_binary_eq_error_iff.1 h with hl | ⟨-, hr⟩
    · obtain ⟨err, herr⟩ := ihl hl
      exact ⟨err, eval_binary_eq_error_iff.2 (.inl herr)⟩
    · obtain ⟨err, herr⟩ := ihr hr
      cases hl : l.eval c with
      | error first => exact ⟨first, eval_binary_eq_error_iff.2 (.inl hl)⟩
      | ok x => exact ⟨err, eval_binary_eq_error_iff.2 (.inr ⟨x, hl, .inl herr⟩)⟩

/-- What has a value is accepted. -/
theorem validate_eq_ok_of_eval {x : Value α} (h : e.eval c = .ok x) : e.validate = .ok () := by
  cases hvalid : e.validate with
  | ok u => rfl
  | error v =>
    obtain ⟨err, herr⟩ := exists_eval_eq_error_of_validate (c := c) hvalid
    rw [h] at herr
    cases herr

/-- An evaluation fails at an operator, or with the offence that the check reports. -/
theorem ofOperator_or_blames_of_eval (h : e.eval c = .error err) :
    err.OfOperator ∨ ∃ v, e.validate = .error v ∧ err.Blames v := by
  induction e using evalInduction with
  | literal x => cases h
  | name n =>
    rw [eval] at h
    split at h
    · cases h
    · rename_i hname
      cases h
      exact .inr ⟨.unknownProperty n, by simp only [validate, hname], .name n⟩
  | call f args =>
    rw [eval] at h
    split at h
    · cases h
    · rename_i reason hcall
      cases h
      exact .inr ⟨reason, by simp only [validate, hcall], .call (function?_of_resolveCall hcall)⟩
  | not e ih => exact ih (eval_not_eq_error_iff.1 h)
  | binary op l r ihl ihr =>
    rcases eval_binary_eq_error_iff.1 h with hl | ⟨x, hl, hr | ⟨y, -, happly⟩⟩
    · rcases ihl hl with hoperator | ⟨v, hv, hblames⟩
      · exact .inl hoperator
      · exact .inr ⟨v, validate_binary_eq_error_iff.2 (.inl hv), hblames⟩
    · rcases ihr hr with hoperator | ⟨v, hv, hblames⟩
      · exact .inl hoperator
      · -- The left operand has a value, so the check goes on to the right one as well.
        have hvalid := validate_eq_ok_of_eval hl
        exact .inr ⟨v, validate_binary_eq_error_iff.2 (.inr ⟨hvalid, hv⟩), hblames⟩
    · exact .inl (Value.ofOperator_of_apply happly)

/-- What the check accepts has a value, or an operator of it goes wrong. What it rejects has no
value in any context; and where the evaluation finds an unknown name or an invalid call, it is the
name that the check reports, or the function and the reason. -/
theorem eval_agrees_validate (c : Context α) (e : Expr α) :
    (e.validate = .ok () → (∃ x, e.eval c = .ok x) ∨ e.eval c = .error .divisionByZero ∨
      ∃ op expected found, e.eval c = .error (.typeMismatch op expected found)) ∧
    ∀ v, e.validate = .error v → ∃ err, e.eval c = .error err ∧
      (∀ n, err = .unknownName n → v = .unknownProperty n) ∧
      ∀ f reason, err = .invalidCall f reason → v.function? = some f ∧ reason = v := by
  constructor
  · intro hvalid
    cases heval : e.eval c with
    | ok x => exact .inl ⟨x, rfl⟩
    | error err =>
      rcases ofOperator_or_blames_of_eval heval with hoperator | ⟨v, hv, -⟩
      · cases hoperator with
        | typeMismatch op expected found => exact .inr (.inr ⟨op, expected, found, rfl⟩)
        | divisionByZero => exact .inr (.inl rfl)
      · rw [hvalid] at hv
        cases hv
  · intro v hv
    obtain ⟨err, heval⟩ := exists_eval_eq_error_of_validate (c := c) hv
    refine ⟨err, heval, ?_⟩
    rcases ofOperator_or_blames_of_eval heval with hoperator | ⟨v', hv', hblames⟩
    · constructor
      · rintro n rfl
        cases hoperator
      · rintro f reason rfl
        cases hoperator
    · obtain rfl : v = v' := Except.error.inj (hv.symm.trans hv')
      constructor
      · rintro n rfl
        cases hblames
        rfl
      · rintro f reason rfl
        cases hblames with
        | call h => exact ⟨h, rfl⟩

/-- A mean over five bars is accepted and absent on one bar. A function of another name is rejected,
and its name is what the evaluation stops at. -/
theorem eval_agrees_validate_unknown_function :
    let bar : Bar Float := ⟨⟨2024, 3, 1, 0, 0, 0, by decide, by decide⟩, 50, 50, 50, 50, 1000⟩
    let c : Context Float := ⟨⟨"A", [bar]⟩, bar, rfl, by decide +kernel⟩
    let accepted : Expr Float := .binary (.compare .gt) (.name "close") (.call "SMA" [.literal 5])
    let rejected : Expr Float := .binary (.compare .gt) (.name "close") (.call "MACD" [.literal 5])
    let offence : VocabularyError Float := .unknownFunction "MACD"
    accepted.validate = .ok () ∧ rejected.validate = .error offence ∧
      ((∃ x, accepted.eval c = .ok x) ∨ accepted.eval c = .error .divisionByZero ∨
        ∃ op expected found, accepted.eval c = .error (.typeMismatch op expected found)) ∧
      ∃ f reason, rejected.eval c = .error (.invalidCall f reason) ∧
        offence.function? = some f ∧ reason = offence := by
  intro bar c accepted rejected offence
  have haccepted : accepted.validate = .ok () := by decide +kernel
  have hrejected : rejected.validate = .error offence := rfl
  have heval : rejected.eval c = .error (.invalidCall "MACD" offence) := rfl
  obtain ⟨err, herr, -, hcall⟩ := (eval_agrees_validate c rejected).2 offence hrejected
  obtain rfl := Except.error.inj (herr.symm.trans heval)
  obtain ⟨hfunction, hreason⟩ := hcall "MACD" offence rfl
  exact ⟨haccepted, hrejected, (eval_agrees_validate c accepted).1 haccepted, _, _, heval,
    hfunction, hreason⟩

end Expr

end TradeRules
