import TradeRules.Indicator.Basic
import TradeRules.Indicator.Strength
import TradeRules.Market.Series

/-!
# Indicator values

An indicator has a value at the newest bar, and a history with one point per bar. Means have a
direct form at the newest bar, which adds up the last window; their history rolls one sum along.
The smoothed kinds read the newest value off the history.
-/

namespace TradeRules

/-- The state of an indicator at one bar. -/
structure Point (α : Type) where
  /-- The moment of the bar. -/
  time : Moment
  /-- The value there, absent while there are too few bars before it. -/
  value : Option α
  deriving Repr

namespace Indicator

variable {α : Type} [Scalar α]

/-- The value at every place of a row of closes and volumes. -/
def values (i : Indicator) (closes volumes : List α) : List (Option α) :=
  match i.kind with
  | .rsi => Strength.history i.period closes
  | .sma => Average.rolling i.period closes
  | .ema => Average.exponential i.period closes
  | .avgVolume => Average.rolling i.period volumes

/-- The value at the end of a row of closes and volumes, absent where they are too few. -/
def value? (i : Indicator) (closes volumes : List α) : Option α :=
  match i.kind with
  | .rsi => (Strength.history i.period closes).getLast?.join
  | .sma => Average.mean? i.period closes
  | .ema => (Average.exponential i.period closes).getLast?.join
  | .avgVolume => Average.mean? i.period volumes

/-- One point per bar. -/
def history (i : Indicator) (bars : List (Bar α)) : List (Point α) :=
  List.zipWith (fun b v => ⟨b.time, v⟩) bars (i.values (bars.map Bar.close) (bars.map Bar.volume))

/-- Every bar has a point. -/
theorem length_history (i : Indicator) (bars : List (Bar α)) :
    (i.history bars).length = bars.length := by
  have h : (i.values (bars.map Bar.close) (bars.map Bar.volume)).length = bars.length := by
    unfold values
    split <;>
      simp [Strength.length_history, Average.length_rolling, Average.length_exponential]
  simp [history, h]

end Indicator

end TradeRules
