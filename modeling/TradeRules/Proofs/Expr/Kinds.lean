import TradeRules.Proofs.Expr.Agreement
import TradeRules.Proofs.Expr.Inventory

/-!
# What kind of value an expression has

The root of an expression tells whether its value is a truth value, and whether the operands of
every operator are of the right kind can be read off the tree (`Expr.isWellKinded`). An operator
finds an operand of the wrong kind exactly where it does not take operands of these kinds, unless
one of them is absent, which is noticed first. So an expression that is well-kinded never comes to a
type mismatch, and one that is not comes to an error, unless an indicator is absent
(`Expr.eval_agrees_isWellKinded`).
-/

namespace TradeRules

/-- Whether an operator gives a truth value. -/
def BinaryOp.isCondition : BinaryOp → Bool
  | .or | .and | .compare _ => true
  | .compute _ => false

/-- Whether an operator takes two operands, of each of which is known whether it is a condition.
Arithmetic and order are about numbers, and equality about two of one kind. -/
def BinaryOp.takes (op : BinaryOp) (left right : Bool) : Bool :=
  match op with
  | .or | .and => true
  | .compare .eq | .compare .ne => left == right
  | .compare .lt | .compare .gt | .compare .le | .compare .ge | .compute _ => !left && !right

namespace Expr

variable {α : Type}

/-- Whether an expression is a condition, which its root decides. -/
def isCondition : Expr α → Bool
  | .literal _ | .name _ | .call _ _ => false
  | .not _ => true
  | .binary op _ _ => op.isCondition

mutual

/-- Whether every operator in an expression takes the operands that it has. -/
def isWellKinded : Expr α → Bool
  | .literal _ | .name _ => true
  | .call _ args => areWellKinded args
  | .not e => e.isWellKinded
  | .binary op l r => op.takes l.isCondition r.isCondition && l.isWellKinded && r.isWellKinded

/-- Whether every operator in a row of expressions takes the operands that it has. -/
def areWellKinded : List (Expr α) → Bool
  | [] => true
  | e :: es => e.isWellKinded && areWellKinded es

end

end Expr

variable {α : Type} [Scalar α]

namespace Value

/-- Whether a value is a truth value. -/
def isTruth : Value α → Bool
  | .truth _ => true
  | .number _ | .absent => false

/-- A condition comes to a truth value, and arithmetic to a number, or to something absent where an
operand is absent. -/
theorem truth_or_amount_of_apply {op : BinaryOp} {x y v : Value α} (h : apply op x y = .ok v) :
    (op.isCondition = true ∧ ∃ b, v = .truth b) ∨
      (op.isCondition = false ∧
        ((x.isAbsent = true ∨ y.isAbsent = true) ∧ v = .absent ∨ ∃ z, v = .number z)) := by
  cases op with
  | or | and =>
    cases h
    exact .inl ⟨rfl, _, rfl⟩
  | compare c =>
    rw [apply] at h
    split at h <;> cases h
    exact .inl ⟨rfl, _, rfl⟩
  | compute a =>
    rcases absent_or_numbers_of_compute h with hv | ⟨m, n, z, -, -, hv⟩
    · exact .inr ⟨rfl, .inl hv⟩
    · exact .inr ⟨rfl, .inr ⟨z, hv⟩⟩

/-- What an operator comes to is a truth value where the operator is a condition. -/
theorem isTruth_of_apply {op : BinaryOp} {x y v : Value α} (h : apply op x y = .ok v) :
    v.isTruth = op.isCondition := by
  rcases truth_or_amount_of_apply h with ⟨hop, b, rfl⟩ | ⟨hop, ⟨-, rfl⟩ | ⟨z, rfl⟩⟩ <;>
    exact hop.symm

/-- What an operator comes to at operands that are present is present. -/
theorem isAbsent_of_apply {op : BinaryOp} {x y v : Value α} (h : apply op x y = .ok v)
    (hx : x.isAbsent = false) (hy : y.isAbsent = false) : v.isAbsent = false := by
  rcases truth_or_amount_of_apply h with ⟨-, b, rfl⟩ | ⟨-, ⟨habsent, -⟩ | ⟨z, rfl⟩⟩
  · rfl
  · rw [hx, hy, or_self] at habsent
    cases habsent
  · rfl

/-- An operator meets an operand of the wrong kind exactly where both operands are present and it
does not take operands of their kinds. -/
theorem exists_typeMismatch_iff {op : BinaryOp} {x y : Value α} :
    (∃ op' expected found, apply op x y = .error (.typeMismatch op' expected found)) ↔
      x.isAbsent = false ∧ y.isAbsent = false ∧ op.takes x.isTruth y.isTruth = false := by
  cases op with
  | or | and => simp [apply, BinaryOp.takes]
  | compare c =>
    cases c <;> cases x <;> cases y <;>
      simp [apply, compare, isAbsent, isTruth, BinaryOp.takes]
  | compute a =>
    cases x with
    | absent => cases y <;> simp [apply, compute, isAbsent]
    | truth b => cases y <;> simp [apply, compute, isAbsent, isTruth, BinaryOp.takes]
    | number m =>
      cases y with
      | absent | truth b => simp [apply, compute, isAbsent, isTruth, BinaryOp.takes]
      | number n =>
        cases a with
        | add | sub | mul => simp [apply, compute, isTruth, BinaryOp.takes]
        | div =>
          simp only [apply, compute]
          split <;> simp [isTruth, BinaryOp.takes]

end Value

namespace Expr

variable {c : Context α} {e : Expr α}

/-- The value of an expression is a truth value exactly if the expression is a condition. -/
theorem isTruth_of_eval {v : Value α} (h : e.eval c = .ok v) : v.isTruth = e.isCondition := by
  cases e with
  | literal x =>
    cases h
    rfl
  | name n =>
    rw [eval] at h
    split at h <;> cases h
    rfl
  | call f args =>
    rw [eval] at h
    split at h <;> cases h
    cases c.indicator? _ <;> rfl
  | not e =>
    obtain ⟨x, -, rfl⟩ := eval_not_eq_ok_iff.1 h
    rfl
  | binary op l r =>
    obtain ⟨x, y, -, -, happly⟩ := eval_binary_eq_ok_iff.1 h
    exact Value.isTruth_of_apply happly

/-- A well-kinded expression never comes to a type mismatch. -/
theorem eval_ne_typeMismatch (h : e.isWellKinded = true) (op : BinaryOp) (expected : Expectation)
    (found : ValueKind) : e.eval c ≠ .error (.typeMismatch op expected found) := by
  induction e using evalInduction with
  | literal x => rintro ⟨⟩
  | name n =>
    rw [eval]
    split <;> rintro ⟨⟩
  | call f args =>
    rw [eval]
    split <;> rintro ⟨⟩
  | not e ih => exact mt eval_not_eq_error_iff.1 (ih h)
  | binary op' l r ihl ihr =>
    simp only [isWellKinded, Bool.and_eq_true] at h
    obtain ⟨⟨htakes, hl⟩, hr⟩ := h
    intro herror
    rcases eval_binary_eq_error_iff.1 herror with hleft | ⟨x, hx, hright | ⟨y, hy, happly⟩⟩
    · exact ihl hl hleft
    · exact ihr hr hright
    · obtain ⟨-, -, hnot⟩ := Value.exists_typeMismatch_iff.1 ⟨op, expected, found, happly⟩
      rw [isTruth_of_eval hx, isTruth_of_eval hy, htakes] at hnot
      cases hnot

/-- What has a value although no indicator in it is absent is well-kinded, and its value is
present. -/
theorem isWellKinded_of_eval {v : Value α} (h : e.eval c = .ok v)
    (hpresent : ∀ i ∈ e.indicators, (c.indicator? i).isSome) :
    e.isWellKinded = true ∧ v.isAbsent = false := by
  induction e using evalInduction generalizing v with
  | literal x =>
    cases h
    exact ⟨rfl, rfl⟩
  | name n =>
    rw [eval] at h
    split at h <;> cases h
    exact ⟨rfl, rfl⟩
  | call f args =>
    rw [eval] at h
    split at h <;> cases h
    rename_i i hcall
    obtain ⟨x, rfl⟩ := eq_literal_of_resolveCall hcall
    obtain ⟨value, hvalue⟩ := Option.isSome_iff_exists.1 (hpresent i (mem_indicators_call hcall))
    rw [hvalue]
    exact ⟨rfl, rfl⟩
  | not e ih =>
    obtain ⟨x, hx, rfl⟩ := eval_not_eq_ok_iff.1 h
    rw [indicators_not] at hpresent
    exact ⟨(ih hx hpresent).1, rfl⟩
  | binary op l r ihl ihr =>
    obtain ⟨x, y, hx, hy, happly⟩ := eval_binary_eq_ok_iff.1 h
    rw [indicators_binary] at hpresent
    obtain ⟨hl, hxpresent⟩ := ihl hx fun i hi => hpresent i (List.mem_append_left _ hi)
    obtain ⟨hr, hypresent⟩ := ihr hy fun i hi => hpresent i (List.mem_append_right _ hi)
    refine ⟨?_, Value.isAbsent_of_apply happly hxpresent hypresent⟩
    have htakes : op.takes l.isCondition r.isCondition = true := by
      by_contra hnot
      rw [Bool.not_eq_true, ← isTruth_of_eval hx, ← isTruth_of_eval hy] at hnot
      obtain ⟨_, _, _, hmismatch⟩ := Value.exists_typeMismatch_iff.2 ⟨hxpresent, hypresent, hnot⟩
      rw [happly] at hmismatch
      cases hmismatch
    simp only [isWellKinded, htakes, hl, hr, Bool.and_self]

/-- No evaluation ends with the remark that a condition is neither true nor false. -/
theorem eval_ne_unsupportedResult (found : ValueKind) :
    e.eval c ≠ .error (.unsupportedResult found) := by
  intro h
  rcases ofOperator_or_blames_of_eval h with hoperator | ⟨v, -, hblames⟩
  · cases hoperator
  · cases hblames

/-- The value of an expression is a truth value exactly if the expression is a condition, which then
is never absent; a well-kinded expression never comes to a type mismatch; and one that is not
well-kinded comes to an error if no indicator in it is absent. -/
theorem eval_agrees_isWellKinded (c : Context α) (e : Expr α) :
    (∀ v, e.eval c = .ok v → v.isTruth = e.isCondition) ∧
    (e.isCondition = true →
      e.eval c ≠ .ok .absent ∧ ∀ found, e.fires c ≠ .error (.unsupportedResult found)) ∧
    (e.isWellKinded = true →
      ∀ op expected found, e.eval c ≠ .error (.typeMismatch op expected found)) ∧
    (e.isWellKinded = false → (∀ i ∈ e.indicators, (c.indicator? i).isSome) →
      ∃ err, e.eval c = .error err) := by
  refine ⟨fun v => isTruth_of_eval, fun hcondition => ?_, eval_ne_typeMismatch,
    fun hkinds hpresent => ?_⟩
  · have habsent : e.eval c ≠ .ok .absent := by
      intro h
      have htruth := isTruth_of_eval h
      rw [hcondition] at htruth
      cases htruth
    refine ⟨habsent, fun found h => ?_⟩
    rcases fires_eq_error_iff.1 h with heval | ⟨heval, -⟩
    · exact eval_ne_unsupportedResult found heval
    · exact habsent heval
  · cases heval : e.eval c with
    | error err => exact ⟨err, rfl⟩
    | ok v =>
      rw [(isWellKinded_of_eval heval hpresent).1] at hkinds
      cases hkinds

/-- A negated comparison is a well-kinded condition. A comparison is not equal to a mean of volumes,
nor unequal: there is an error, for the mean is present. -/
theorem eval_agrees_isWellKinded_equality :
    let bar : Bar Float := ⟨⟨2024, 3, 1, 0, 0, 0, by decide, by decide⟩, 45, 60, 40, 50, 1000⟩
    let c : Context Float := ⟨⟨"A", [bar]⟩, bar, rfl, by decide +kernel⟩
    let above : Expr Float := .binary (.compare .gt) (.name "close") (.name "low")
    let sound : Expr Float := .not above
    let mixed : Expr Float := .binary (.compare .eq) above (.call "avgVolume" [.literal 1])
    (∃ v, sound.eval c = .ok v ∧ v.isTruth = sound.isCondition) ∧
      (sound.isCondition = true ∧ sound.eval c ≠ .ok .absent ∧
        ∀ found, sound.fires c ≠ .error (.unsupportedResult found)) ∧
      (sound.isWellKinded = true ∧
        ∀ op expected found, sound.eval c ≠ .error (.typeMismatch op expected found)) ∧
      (mixed.isWellKinded = false ∧ mixed.indicators = [⟨.avgVolume, 1⟩] ∧
        (∀ i ∈ mixed.indicators, (c.indicator? i).isSome) ∧ ∃ err, mixed.eval c = .error err) := by
  intro bar c above sound mixed
  obtain ⟨htruth, hcondition, hkinds, -⟩ := eval_agrees_isWellKinded c sound
  obtain ⟨-, -, -, hmixed⟩ := eval_agrees_isWellKinded c mixed
  have hindicators : mixed.indicators = [⟨.avgVolume, 1⟩] := by decide +kernel
  have hpresent : ∀ i ∈ mixed.indicators, (c.indicator? i).isSome := by
    rw [hindicators, List.forall_mem_singleton]
    decide +kernel
  exact ⟨⟨_, rfl, htruth _ rfl⟩, ⟨rfl, hcondition rfl⟩, ⟨rfl, hkinds rfl⟩, rfl, hindicators, hpresent,
    hmixed rfl hpresent⟩

end Expr

end TradeRules
