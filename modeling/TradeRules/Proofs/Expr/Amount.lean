import TradeRules.Proofs.Expr.FirstError
import TradeRules.Proofs.Expr.MissingHistory

/-!
# What an amount comes to

An amount within the vocabulary comes to a number, to nothing present, or to a division by zero. It is
never a number where the value of one of its calls is missing, and it is one where all are there, unless
somewhere in it a number is divided by zero. At a single operator what is absent is noticed before a
zero divisor; but an operator elsewhere in the amount may divide by zero all the same, and then
that is what the whole comes to (`Expr.eval_amount`).
-/

namespace TradeRules

variable {α : Type}

/-- The operands of an amount are amounts. -/
theorem Expr.IsAmount.operands {e : Expr α} (h : e.IsAmount) : ∀ s ∈ e.operands, s.IsAmount := by
  cases h with
  | literal _ | name _ | call _ _ => exact List.forall_mem_nil _
  | compute a left right =>
    exact List.forall_mem_cons.2 ⟨left, List.forall_mem_singleton.2 right⟩

variable [Scalar α]

/-- Arithmetic divides by zero exactly at two numbers of which the divisor is zero. -/
theorem Value.compute_eq_divisionByZero_iff {a : Arithmetic} {x y : Value α} :
    compute a x y = .error .divisionByZero ↔
      a = .div ∧ ∃ m n, x = .number m ∧ y = .number n ∧ Scalar.same n Scalar.zero = true := by
  constructor
  · intro h
    unfold compute at h
    split at h
    · cases h
    · cases h
    · rename_i m n
      cases a with
      | add | sub | mul => cases h
      | div =>
        simp only at h
        split at h
        · rename_i hzero
          exact ⟨rfl, m, n, rfl, rfl, hzero⟩
        · cases h
    · cases h
  · rintro ⟨rfl, m, n, rfl, rfl, hzero⟩
    exact if_pos hzero

namespace Expr

variable {c : Context α} {e l r : Expr α}

/-- The error that is raised at an operator is its own at the values of its operands. -/
theorem raised?_binary_eq_some_iff {op : BinaryOp} {err : EvalError α} :
    (binary op l r).raised? c = some err ↔
      ∃ x y, l.eval c = .ok x ∧ r.eval c = .ok y ∧ Value.apply op x y = .error err := by
  cases hl : l.eval c with
  | error _ => simp [raised?, operands, error?, hl]
  | ok x =>
    cases hr : r.eval c with
    | error _ => simp [raised?, operands, error?, hl, hr]
    | ok y =>
      have hraised : (binary op l r).raised? c = (binary op l r).error? c := by
        simp [raised?, operands, error?, hl, hr]
      rw [hraised, error?_eq_some_iff, eval_binary_eq_error_iff, hl, hr]
      simp

namespace IsAmount

/-- An amount within the vocabulary is well-kinded: nothing in it is a condition. -/
theorem isWellKinded (h : e.IsAmount) (hvalid : e.validate = .ok ()) : e.isWellKinded = true := by
  induction h with
  | literal _ | name _ => rfl
  | call f args =>
    obtain ⟨i, hi⟩ := validate_call_eq_ok_iff.1 hvalid
    obtain ⟨x, rfl⟩ := eq_literal_of_resolveCall hi
    rfl
  | compute a left right ihl ihr =>
    obtain ⟨hl, hr⟩ := validate_binary_eq_ok_iff.1 hvalid
    rw [Expr.isWellKinded, left.isCondition, right.isCondition, ihl hl, ihr hr]
    rfl

end IsAmount

/-- The operands of an expression within the vocabulary are within it. -/
theorem validate_operands (h : e.validate = .ok ()) : ∀ s ∈ e.operands, s.validate = .ok () := by
  cases e with
  | literal _ | name _ | call _ _ => exact List.forall_mem_nil _
  | not e => exact List.forall_mem_singleton.2 h
  | binary op l r =>
    obtain ⟨hl, hr⟩ := validate_binary_eq_ok_iff.1 h
    exact List.forall_mem_cons.2 ⟨hl, List.forall_mem_singleton.2 hr⟩

namespace IsAmount

/-- The only thing that goes wrong in an amount within the vocabulary is a division by zero. -/
theorem eq_divisionByZero (h : e.IsAmount) (hvalid : e.validate = .ok ()) {err : EvalError α}
    (herr : e.eval c = .error err) : err = .divisionByZero := by
  rcases ofOperator_or_blames_of_eval herr with hoperator | ⟨v, hv, -⟩
  · cases hoperator with
    | typeMismatch op expected found =>
      exact absurd herr (eval_ne_typeMismatch (h.isWellKinded hvalid) op expected found)
    | divisionByZero => rfl
  · rw [hvalid] at hv
    cases hv

/-- The value of an amount is absent exactly if that of one of its calls is. -/
theorem isAbsent_iff (h : e.IsAmount) {v : Value α} (hv : e.eval c = .ok v) :
    v.isAbsent = true ↔ ∃ i ∈ e.indicators, c.indicator? i = none := by
  induction h generalizing v with
  | literal x =>
    cases hv
    exact iff_of_false Bool.false_ne_true (by rintro ⟨i, hi, -⟩; cases hi)
  | name n =>
    rw [eval] at hv
    split at hv <;> cases hv
    exact iff_of_false Bool.false_ne_true (by rintro ⟨i, hi, -⟩; cases hi)
  | call f args =>
    rw [eval] at hv
    split at hv <;> cases hv
    rename_i i hcall
    simp only [indicators_call hcall, List.mem_singleton, exists_eq_left]
    cases c.indicator? i with
    | none => exact iff_of_true rfl rfl
    | some x => exact iff_of_false Bool.false_ne_true (by rintro ⟨⟩)
  | compute a left right ihl ihr =>
    obtain ⟨x, y, hx, hy, happly⟩ := eval_binary_eq_ok_iff.1 hv
    simp only [indicators_binary, List.mem_append, or_and_right, exists_or, ← ihl hx, ← ihr hy]
    rcases Value.absent_or_numbers_of_compute happly with ⟨hmissing, rfl⟩ | ⟨m, n, z, rfl, rfl, rfl⟩
    · exact iff_of_true rfl hmissing
    · simp [Value.isAbsent]

/-- An amount within the vocabulary comes to a number, to nothing present or to a division by zero:
to the first only if all its calls have values, to the second only if one has none. -/
theorem number_or_absent_or_divisionByZero (h : e.IsAmount) (hvalid : e.validate = .ok ())
    (c : Context α) :
    ((∃ x, e.eval c = .ok (.number x)) ∧ ¬∃ i ∈ e.indicators, c.indicator? i = none) ∨
      (e.eval c = .ok .absent ∧ ∃ i ∈ e.indicators, c.indicator? i = none) ∨
      e.eval c = .error .divisionByZero := by
  cases heval : e.eval c with
  | error err => exact .inr (.inr (by rw [h.eq_divisionByZero hvalid heval]))
  | ok v =>
    have hiff := h.isAbsent_iff heval
    cases hpresent : v.isAbsent with
    | true =>
      cases v with
      | absent => exact .inr (.inl ⟨rfl, hiff.1 hpresent⟩)
      | truth b | number x => cases hpresent
    | false =>
      obtain ⟨x, rfl⟩ := h.exists_number heval hpresent
      exact .inl ⟨⟨x, rfl⟩, fun hmissing => Bool.false_ne_true (hpresent.symm.trans (hiff.2 hmissing))⟩

/-- An error is raised at an amount within the vocabulary exactly if it divides a number by zero. -/
theorem isSome_raised?_iff (h : e.IsAmount) (hvalid : e.validate = .ok ()) :
    (e.raised? c).isSome = true ↔ ∃ l r x y, e = binary (.compute .div) l r ∧
      l.eval c = .ok (.number x) ∧ r.eval c = .ok (.number y) ∧
      Scalar.same y Scalar.zero = true := by
  rw [Option.isSome_iff_exists]
  constructor
  · rintro ⟨err, hraised⟩
    have heval := eval_eq_error_of_raised? hraised
    obtain rfl := h.eq_divisionByZero hvalid heval
    cases h with
    | literal x => cases heval
    | name n =>
      rw [eval] at heval
      split at heval <;> cases heval
    | call f args =>
      rw [eval] at heval
      split at heval <;> cases heval
    | compute a left right =>
      obtain ⟨x, y, hx, hy, happly⟩ := raised?_binary_eq_some_iff.1 hraised
      obtain ⟨rfl, m, n, rfl, rfl, hzero⟩ := Value.compute_eq_divisionByZero_iff.1 happly
      exact ⟨_, _, m, n, rfl, hx, hy, hzero⟩
  · rintro ⟨l, r, x, y, rfl, hl, hr, hzero⟩
    have happly := Value.compute_eq_divisionByZero_iff.2 ⟨rfl, x, y, rfl, rfl, hzero⟩
    exact ⟨.divisionByZero, raised?_binary_eq_some_iff.2 ⟨_, _, hl, hr, happly⟩⟩

/-- An amount within the vocabulary comes to a division by zero exactly if an error is raised at one of
its nodes. -/
theorem eval_eq_divisionByZero_iff (h : e.IsAmount) (hvalid : e.validate = .ok ()) :
    e.eval c = .error .divisionByZero ↔ ∃ s ∈ e.nodes, (s.raised? c).isSome = true := by
  rw [← isSome_error?_iff, Option.isSome_iff_exists]
  constructor
  · intro herr
    exact ⟨.divisionByZero, error?_eq_some_iff.2 herr⟩
  · rintro ⟨err, herr⟩
    have heval := error?_eq_some_iff.1 herr
    rwa [h.eq_divisionByZero hvalid heval] at heval

end IsAmount

/-- Take an amount within the vocabulary. Where the value of one of its calls is missing, it comes to
nothing present or to a division by zero; where all are there, to a number or to a division by
zero. It comes to a division by zero exactly if one of its divisions has two numbers for operands
of which the divisor is zero. -/
theorem eval_amount (he : e.IsAmount) (hvalid : e.validate = .ok ()) (c : Context α) :
    ((∃ i ∈ e.indicators, c.indicator? i = none) →
      e.eval c = .ok .absent ∨ e.eval c = .error .divisionByZero) ∧
    ((∀ i ∈ e.indicators, (c.indicator? i).isSome = true) →
      (∃ x, e.eval c = .ok (.number x)) ∨ e.eval c = .error .divisionByZero) ∧
    (e.eval c = .error .divisionByZero ↔ ∃ l r x y, binary (.compute .div) l r ∈ e.nodes ∧
      l.eval c = .ok (.number x) ∧ r.eval c = .ok (.number y) ∧
      Scalar.same y Scalar.zero = true) := by
  have hcases := he.number_or_absent_or_divisionByZero hvalid c
  refine ⟨fun hmissing => ?_, fun hpresent => ?_, ?_⟩
  · rcases hcases with ⟨-, hall⟩ | ⟨habsent, -⟩ | hzero
    · exact absurd hmissing hall
    · exact .inl habsent
    · exact .inr hzero
  · rcases hcases with ⟨hnumber, -⟩ | ⟨-, i, hi, hnone⟩ | hzero
    · exact .inl hnumber
    · have hsome := hpresent i hi
      rw [hnone] at hsome
      cases hsome
    · exact .inr hzero
  · have hamounts := forall_mem_nodes (fun _ => IsAmount.operands) he
    have hvalids := forall_mem_nodes (fun _ => validate_operands) hvalid
    rw [he.eval_eq_divisionByZero_iff hvalid]
    constructor
    · rintro ⟨s, hs, hraised⟩
      obtain ⟨l, r, x, y, rfl, hl, hr, hzero⟩ :=
        ((hamounts s hs).isSome_raised?_iff (hvalids s hs)).1 hraised
      exact ⟨l, r, x, y, hs, hl, hr, hzero⟩
    · rintro ⟨l, r, x, y, hs, hl, hr, hzero⟩
      exact ⟨_, hs, ((hamounts _ hs).isSome_raised?_iff (hvalids _ hs)).2
        ⟨l, r, x, y, rfl, hl, hr, hzero⟩⟩

/-- On one bar there is no mean over two. Divided by zero it is absent, for what is absent is noticed
first; but beside a volume that is divided by zero it does not prevent the error. With a mean over
one bar there is a number. -/
theorem eval_amount_mean_and_zero :
    let bar : Bar Float := ⟨⟨2024, 3, 1, 0, 0, 0, by decide, by decide⟩, 50, 55, 45, 50, 1200⟩
    let c : Context Float := ⟨⟨"A", [bar]⟩, bar, rfl, by decide +kernel⟩
    let mean (period : Float) : Expr Float := .call "SMA" [.literal period]
    let change : Expr Float := .binary (.compute .sub) (.name "close") (.name "open")
    let quotient (l r : Expr Float) : Expr Float := .binary (.compute .div) l r
    let missing : Expr Float := quotient (mean 2) change
    let beside : Expr Float := .binary (.compute .add) (mean 2) (quotient (.name "volume") change)
    let present : Expr Float := quotient (.name "high") (mean 1)
    (missing.IsAmount ∧ missing.validate = .ok () ∧ (∃ i ∈ missing.indicators, c.indicator? i = none) ∧
        (missing.eval c = .ok .absent ∨ missing.eval c = .error .divisionByZero)) ∧
      (beside.IsAmount ∧ beside.validate = .ok () ∧ beside.eval c = .error .divisionByZero) ∧
      (present.IsAmount ∧ present.validate = .ok () ∧
        (∀ i ∈ present.indicators, (c.indicator? i).isSome = true) ∧
        ((∃ x, present.eval c = .ok (.number x)) ∨ present.eval c = .error .divisionByZero)) := by
  intro bar c mean change quotient missing beside present
  have hchange : change.IsAmount := .compute _ (.name _) (.name _)
  have hmissing : missing.IsAmount := .compute _ (.call _ _) hchange
  have hbeside : beside.IsAmount := .compute _ (.call _ _) (.compute _ (.name _) hchange)
  have hpresent : present.IsAmount := .compute _ (.name _) (.call _ _)
  have hmissingvalid : missing.validate = .ok () := by decide +kernel
  have hbesidevalid : beside.validate = .ok () := by decide +kernel
  have hpresentvalid : present.validate = .ok () := by decide +kernel
  have hnone : ∃ i ∈ missing.indicators, c.indicator? i = none := by
    rw [show missing.indicators = [⟨.sma, 2⟩] by decide +kernel]
    exact ⟨_, List.mem_singleton_self _, rfl⟩
  have hsome : ∀ i ∈ present.indicators, (c.indicator? i).isSome = true := by
    rw [show present.indicators = [⟨.sma, 1⟩] by decide +kernel, List.forall_mem_singleton]
    decide +kernel
  have hzero : beside.eval c = .error .divisionByZero :=
    (eval_amount hbeside hbesidevalid c).2.2.2 ⟨.name "volume", change, 1200, 50 - 50,
      by simp [beside, quotient, nodes], rfl, rfl, by decide +kernel⟩
  exact ⟨⟨hmissing, hmissingvalid, hnone, (eval_amount hmissing hmissingvalid c).1 hnone⟩,
    ⟨hbeside, hbesidevalid, hzero⟩,
    ⟨hpresent, hpresentvalid, hsome, (eval_amount hpresent hpresentvalid c).2.1 hsome⟩⟩

end Expr

end TradeRules
