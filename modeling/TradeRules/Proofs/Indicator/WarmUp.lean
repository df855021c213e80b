import Mathlib
import TradeRules.Indicator.History

/-!
# When an indicator has a value

A mean over a number of bars has a value from that many bars on, and the relative strength from one
bar more, since it is computed of changes. With fewer bars, or with a period of zero, there is no
value at all (`Indicator.isSome_value?_iff`).
-/

namespace TradeRules

/-- Nothing comes last in a row of absent values. -/
theorem join_getLast?_absent {β γ : Type} (values : List β) :
    (values.map fun _ => (none : Option γ)).getLast?.join = none := by
  rw [List.getLast?_map]
  cases values.getLast? <;> rfl

/-- A value comes last in a row of values, whatever absent ones it begins with. -/
theorem isSome_join_getLast?_padded {β γ : Type} (n : Nat) (f : β → γ) {xs : List β} (h : xs ≠ []) :
    ((List.replicate n none ++ xs.map fun x => some (f x)).getLast?.join).isSome := by
  have hlast : xs.getLast? = some (xs.getLast h) := List.getLast?_eq_some_getLast h
  rw [List.getLast?_append, List.getLast?_map, hlast]
  rfl

variable {α : Type} [Scalar α]

namespace Average

/-- There is a mean of the last values where there are that many. -/
theorem isSome_mean?_iff {period : Nat} {values : List α} :
    (mean? period values).isSome ↔ 0 < period ∧ period ≤ values.length := by
  unfold mean?
  split
  · exact iff_of_false Bool.false_ne_true (by omega)
  · exact iff_of_true rfl (by omega)

/-- The exponential mean has a newest value where there is a first window. -/
theorem isSome_getLast?_exponential_iff {period : Nat} {values : List α} :
    (exponential period values).getLast?.join.isSome ↔ 0 < period ∧ period ≤ values.length := by
  unfold exponential
  split
  · rw [join_getLast?_absent]
    exact iff_of_false Bool.false_ne_true (by omega)
  · exact iff_of_true (isSome_join_getLast?_padded _ _ (List.cons_ne_nil _ _)) (by omega)

end Average

namespace Strength

/-- The relative strength has a newest value where there is a change for each unit of the period. -/
theorem isSome_getLast?_history_iff {period : Nat} {closes : List α} :
    (history period closes).getLast?.join.isSome ↔ 0 < period ∧ period + 1 ≤ closes.length := by
  unfold history
  split
  · rw [join_getLast?_absent]
    exact iff_of_false Bool.false_ne_true (by omega)
  · have hfollow : (Averages.first period (changes closes)).follow period
        ((changes closes).drop period) ≠ [] := by
      rw [← List.length_pos_iff, Averages.length_follow]
      exact Nat.succ_pos _
    exact iff_of_true (isSome_join_getLast?_padded _ _ hfollow) (by omega)

end Strength

namespace Indicator

/-- The bars that an indicator needs before it has a value. -/
def barsNeeded (i : Indicator) : Nat :=
  match i.kind with
  | .rsi => i.period + 1
  | .sma | .ema | .avgVolume => i.period

/-- An indicator over one bar at least needs no more bars than settle it. -/
theorem barsNeeded_le {i : Indicator} (hperiod : 0 < i.period) :
    i.barsNeeded ≤ i.period * i.kind.multiplier := by
  unfold barsNeeded IndicatorKind.multiplier
  cases i.kind <;> simp only <;> omega

/-- An indicator has a value where its period is not zero and there are the bars that it needs. -/
theorem isSome_value?_iff {i : Indicator} {closes volumes : List α}
    (h : closes.length = volumes.length) :
    (i.value? closes volumes).isSome ↔ 0 < i.period ∧ i.barsNeeded ≤ closes.length := by
  unfold value? barsNeeded
  cases i.kind with
  | rsi => exact Strength.isSome_getLast?_history_iff
  | sma => exact Average.isSome_mean?_iff
  | ema => exact Average.isSome_getLast?_exponential_iff
  | avgVolume =>
    rw [h]
    exact Average.isSome_mean?_iff

end Indicator

end TradeRules
