import Mathlib
import TradeRules.Rule.Decision

/-!
# When a rule fires

A rule fires on a series where its condition can be read, stays within the vocabulary, and holds in
the context of the series (`Rule.FiresOn`). Only then is cash asked for, and only then does the
answer matter; a rule that does not fire is settled without it.
-/

namespace TradeRules.Rule

variable {α : Type} [Scalar α]

/-- A rule fires on a series where its condition can be read and holds there. -/
def FiresOn (r : Rule) (s : Series α) : Prop :=
  ∃ (e : Expr α) (c : Context α), Expr.ofString r.condition = .ok e ∧ e.validate = .ok () ∧
    Context.of s = .ok c ∧ e.fires c = .ok true

/-- What can be read and is accepted is what a rule evaluates. -/
theorem readExpr_eq_ok_iff {text : String} {e : Expr α} :
    readExpr text = .ok e ↔ Expr.ofString text = .ok e ∧ e.validate = .ok () := by
  unfold readExpr
  constructor
  · intro h
    split at h
    · cases h
    · rename_i e' hread
      split at h
      · cases h
      · rename_i hvalid
        cases h
        exact ⟨hread, hvalid⟩
  · rintro ⟨hread, hvalid⟩
    simp only [hread, hvalid]

/-- Whether a rule fires is settled where its condition can be read, is accepted and has a truth in
the context of the series. -/
theorem firing_eq_ok_iff {r : Rule} {s : Series α} {c : Context α} {b : Bool} :
    r.firing s = .ok (c, b) ↔ ∃ e : Expr α, Expr.ofString r.condition = .ok e ∧
      e.validate = .ok () ∧ Context.of s = .ok c ∧ e.fires c = .ok b := by
  constructor
  · intro h
    unfold firing at h
    split at h
    · cases h
    · rename_i e hread
      split at h
      · cases h
      · rename_i c' hcontext
        split at h
        · cases h
        · rename_i b hfires
          cases h
          obtain ⟨hread, hvalid⟩ := readExpr_eq_ok_iff.1 hread
          exact ⟨e, hread, hvalid, hcontext, hfires⟩
  · rintro ⟨e, hread, hvalid, hcontext, hfires⟩
    simp only [firing, readExpr_eq_ok_iff.2 ⟨hread, hvalid⟩, hcontext, hfires]

/-- A rule fires exactly where its condition comes out as true. -/
theorem firesOn_iff {r : Rule} {s : Series α} :
    r.FiresOn s ↔ ∃ c, r.firing s = .ok (c, true) := by
  simp only [FiresOn, firing_eq_ok_iff]
  exact exists_comm

instance (r : Rule) (s : Series α) : Decidable (r.FiresOn s) :=
  decidable_of_iff ((r.firing s).toOption.any Prod.snd = true) <| by
    rw [firesOn_iff]
    cases r.firing s with
    | error e => simp [Except.toOption]
    | ok p =>
      obtain ⟨c, b⟩ := p
      simp [Except.toOption]

/-- The amount of cash does not matter to a size that is not a percentage of it. -/
theorem computeSize_of_ne {sizing : Sizing} (h : sizing ≠ .percentage) (c : Context α)
    (size : String) (cash cash' : Option α) :
    computeSize c sizing size cash = computeSize c sizing size cash' := by
  cases sizing with
  | percentage => exact absurd rfl h
  | fixed | expression => rfl

/-- The amount of cash does not matter to the trade of a rule that is not sized by percentage. -/
theorem trade_of_ne {r : Rule} (h : r.sizing ≠ .percentage) (c : Context α)
    (cash cash' : Option α) : r.trade c (.ok cash) = r.trade c (.ok cash') := by
  simp only [trade, computeSize_of_ne h c r.size cash cash']

variable {m : Type → Type} [Monad m]

/-- A rule that fires asks for cash once and is settled by the answer. -/
theorem evaluate_of_firesOn [LawfulMonad m] {r : Rule} {s : Series α} (h : r.FiresOn s)
    (cash : m (Except (SizingError α) (Option α))) :
    r.evaluate s cash = (fun answer => Id.run (r.evaluate s (pure answer))) <$> cash := by
  obtain ⟨c, hfiring⟩ := firesOn_iff.1 h
  simp only [evaluate, hfiring, bind_pure_comp, Id.run_map, Id.run_pure]

/-- A rule that does not fire asks for nothing, and no answer would matter. -/
theorem evaluate_of_not_firesOn {r : Rule} {s : Series α} (h : ¬r.FiresOn s)
    (cash : m (Except (SizingError α) (Option α))) (answer : Except (SizingError α) (Option α)) :
    r.evaluate s cash = pure (Id.run (r.evaluate s (pure answer))) := by
  unfold evaluate
  split
  · rfl
  · rfl
  · rename_i c hfiring
    exact absurd (firesOn_iff.2 ⟨c, hfiring⟩) h

end TradeRules.Rule
