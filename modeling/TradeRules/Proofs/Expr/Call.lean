import Mathlib
import TradeRules.Expr.Vocabulary

/-!
# What a call means

A call means an indicator exactly if its name is that of a kind, in any ASCII letter case, and its one
argument is a literal that is whole and above zero. Any other call offends against the vocabulary in
one way (`CallOffence`), for what is looked at first is reported. The name is looked up twice, once
in the list of names and once by its lower case; both know the same names, so that a name that
passed the first time means something the second time.
-/

namespace TradeRules

variable {α : Type} [Scalar α]

/-- `CallOffence f args v`: the call of `f` with `args` offends in the way `v`, and in none that is
looked at before. -/
inductive CallOffence : String → List (Expr α) → VocabularyError α → Prop where
  /-- The name is that of no kind. -/
  | unknownFunction {f : String} {args : List (Expr α)}
    (unknown : IndicatorKind.isFunction f = false) : CallOffence f args (.unknownFunction f)
  /-- There is not one argument. -/
  | wrongArity {f : String} {args : List (Expr α)} (known : IndicatorKind.isFunction f = true)
    (arity : args.length ≠ 1) : CallOffence f args (.wrongArity f args.length)
  /-- The argument is no literal. -/
  | nonLiteralArgument {f : String} {a : Expr α} (known : IndicatorKind.isFunction f = true)
    (other : ∀ x, a ≠ .literal x) : CallOffence f [a] (.nonLiteralArgument f)
  /-- The literal is zero or below. -/
  | nonPositivePeriod {f : String} {x : α} (known : IndicatorKind.isFunction f = true)
    (low : Scalar.atMost x Scalar.zero = true) :
    CallOffence f [.literal x] (.nonPositivePeriod f x)
  /-- The literal is not whole. -/
  | nonIntegerPeriod {f : String} {x : α} (known : IndicatorKind.isFunction f = true)
    (high : Scalar.atMost x Scalar.zero = false) (broken : Scalar.isWhole x = false) :
    CallOffence f [.literal x] (.nonIntegerPeriod f x)

/-- The list of names and the look-up by lower case know the same names. -/
theorem isFunction_eq_false_iff {f : String} :
    IndicatorKind.isFunction f = false ↔ IndicatorKind.ofName? f = none := by
  rw [← Bool.not_eq_true, IndicatorKind.isFunction_iff, ← Option.isSome_iff_exists,
    Bool.not_eq_true, Option.isSome_eq_false_iff, Option.isNone_iff_eq_none]

/-- With any period a name means an indicator exactly if it is listed. -/
theorem isSome_ofCall? (f : String) (period : Nat) :
    (Indicator.ofCall? f period).isSome = IndicatorKind.isFunction f := by
  rw [Indicator.ofCall?, Option.isSome_map, Bool.eq_iff_iff, IndicatorKind.isFunction_iff,
    Option.isSome_iff_exists]

/-- A call of a kind by its name, with a period, means the kind over as many bars. -/
theorem resolveCall_literal {f : String} {k : IndicatorKind} {x : α}
    (hname : IndicatorKind.ofName? f = some k) (hpos : Scalar.atMost x Scalar.zero = false)
    (hwhole : Scalar.isWhole x = true) :
    resolveCall f [.literal x] = .ok ⟨k, Scalar.toCount x⟩ := by
  have hknown : IndicatorKind.isFunction f = true := IndicatorKind.isFunction_iff.2 ⟨k, hname⟩
  have hfound : Indicator.ofCall? f (Scalar.toCount x) = some ⟨k, Scalar.toCount x⟩ := by
    rw [Indicator.ofCall?, hname]
    rfl
  simp only [resolveCall, hknown, hpos, hwhole, hfound, if_true, Bool.false_eq_true, if_false]

/-- A call that offends means no indicator. -/
theorem CallOffence.resolveCall_eq {f : String} {args : List (Expr α)} {v : VocabularyError α}
    (h : CallOffence f args v) : resolveCall f args = .error v := by
  cases h with
  | unknownFunction unknown =>
    simp only [resolveCall, unknown, Bool.false_eq_true, if_false]
  | wrongArity known arity =>
    unfold resolveCall
    rw [if_pos known]
    split
    · exact absurd rfl arity
    · exact absurd rfl arity
    · rfl
  | nonLiteralArgument known other =>
    unfold resolveCall
    rw [if_pos known]
    split
    · rename_i x heq
      exact absurd (List.singleton_inj.1 heq) (other x)
    · rfl
    · rename_i h
      exact absurd rfl (h _)
  | nonPositivePeriod known low =>
    simp only [resolveCall, known, low, if_true]
  | nonIntegerPeriod known high broken =>
    simp only [resolveCall, known, high, broken, if_true, Bool.false_eq_true, if_false]

/-- Every call means an indicator or offends. -/
theorem exists_resolveCall_or_offence (f : String) (args : List (Expr α)) :
    (∃ k x, IndicatorKind.ofName? f = some k ∧ args = [.literal x] ∧
      Scalar.atMost x Scalar.zero = false ∧ Scalar.isWhole x = true) ∨
    ∃ v, CallOffence f args v := by
  cases hname : IndicatorKind.ofName? f with
  | none => exact .inr ⟨_, .unknownFunction (isFunction_eq_false_iff.2 hname)⟩
  | some k =>
    have hknown : IndicatorKind.isFunction f = true := IndicatorKind.isFunction_iff.2 ⟨k, hname⟩
    by_cases harity : args.length = 1
    · obtain ⟨a, rfl⟩ := List.length_eq_one_iff.1 harity
      by_cases hliteral : ∃ x, a = .literal x
      · obtain ⟨x, rfl⟩ := hliteral
        cases hpos : Scalar.atMost x Scalar.zero with
        | true => exact .inr ⟨_, .nonPositivePeriod hknown hpos⟩
        | false =>
          cases hwhole : Scalar.isWhole x with
          | true => exact .inl ⟨k, x, rfl, rfl, hpos, hwhole⟩
          | false => exact .inr ⟨_, .nonIntegerPeriod hknown hpos hwhole⟩
      · exact .inr ⟨_, .nonLiteralArgument hknown (not_exists.1 hliteral)⟩
    · exact .inr ⟨_, .wrongArity hknown harity⟩

/-- A call means an indicator exactly if its name is that of the kind, and its one argument a literal
that is whole and above zero. -/
theorem resolveCall_eq_ok_iff {f : String} {args : List (Expr α)} {i : Indicator} :
    resolveCall f args = .ok i ↔ ∃ k x, IndicatorKind.ofName? f = some k ∧ args = [.literal x] ∧
      Scalar.atMost x Scalar.zero = false ∧ Scalar.isWhole x = true ∧
      i = ⟨k, Scalar.toCount x⟩ := by
  constructor
  · intro h
    rcases exists_resolveCall_or_offence f args with ⟨k, x, hname, rfl, hpos, hwhole⟩ | ⟨v, hv⟩
    · rw [resolveCall_literal hname hpos hwhole, Except.ok.injEq] at h
      exact ⟨k, x, hname, rfl, hpos, hwhole, h.symm⟩
    · rw [hv.resolveCall_eq] at h
      cases h
  · rintro ⟨k, x, hname, rfl, hpos, hwhole, rfl⟩
    exact resolveCall_literal hname hpos hwhole

/-- A call that means no indicator offends in the way that is reported. -/
theorem resolveCall_eq_error_iff {f : String} {args : List (Expr α)} {v : VocabularyError α} :
    resolveCall f args = .error v ↔ CallOffence f args v := by
  refine ⟨fun h => ?_, CallOffence.resolveCall_eq⟩
  rcases exists_resolveCall_or_offence f args with ⟨k, x, hname, rfl, hpos, hwhole⟩ | ⟨w, hw⟩
  · rw [resolveCall_literal hname hpos hwhole] at h
    cases h
  · rw [hw.resolveCall_eq, Except.error.injEq] at h
    rwa [← h]

/-- A call within the vocabulary has one argument, which is a literal. -/
theorem eq_literal_of_resolveCall {f : String} {args : List (Expr α)} {i : Indicator}
    (h : resolveCall f args = .ok i) : ∃ x, args = [.literal x] := by
  obtain ⟨k, x, -, hargs, -⟩ := resolveCall_eq_ok_iff.1 h
  exact ⟨x, hargs⟩

end TradeRules
