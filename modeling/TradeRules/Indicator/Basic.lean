import TradeRules.Number.Numeral

/-!
# Indicators

The four functions that a rule may call, each over a number of bars. Function names are
recognised in any ASCII letter case and written in one.
-/

namespace TradeRules

open Number

/-- What an indicator computes. -/
inductive IndicatorKind where
  /-- Wilder's relative strength index of the closes. -/
  | rsi
  /-- The arithmetic mean of the closes. -/
  | sma
  /-- The exponentially weighted mean of the closes. -/
  | ema
  /-- The arithmetic mean of the volumes. -/
  | avgVolume
  deriving DecidableEq, Repr

namespace IndicatorKind

/-- All kinds, in the order in which messages name them. -/
def all : List IndicatorKind := [.rsi, .sma, .ema, .avgVolume]

/-- The name as it is written. -/
def name : IndicatorKind → String
  | .rsi => "RSI"
  | .sma => "SMA"
  | .ema => "EMA"
  | .avgVolume => "avgVolume"

/-- A name with its ASCII letters in lower case. -/
def folded (name : String) : List Char := name.toList.map Char.toLower

/-- Whether a name is that of a kind, in any ASCII letter case. -/
def isFunction (name : String) : Bool := all.any fun k => folded k.name == folded name

/-- The kind that a name means, which is told by its lower case. -/
def ofName? (name : String) : Option IndicatorKind :=
  if folded name = "rsi".toList then some .rsi
  else if folded name = "sma".toList then some .sma
  else if folded name = "ema".toList then some .ema
  else if folded name = "avgvolume".toList then some .avgVolume
  else none

/-- Bars needed per unit of the period before a value is settled: the smoothed kinds carry their
first values along. -/
def multiplier : IndicatorKind → Nat
  | .rsi | .ema => 3
  | .sma | .avgVolume => 2

/-- Letter case does not matter for what a name means. -/
theorem ofName?_congr {a b : String} (h : folded a = folded b) : ofName? a = ofName? b := by
  rw [ofName?, ofName?, h]

theorem ofName?_name (k : IndicatorKind) : ofName? k.name = some k := by cases k <;> decide

/-- A name means a kind exactly if it is the name of that kind in some letter case. -/
theorem ofName?_eq_some_iff {n : String} {k : IndicatorKind} :
    ofName? n = some k ↔ folded k.name = folded n := by
  constructor
  · intro h
    have hname : folded n = folded k.name := by
      unfold ofName? at h
      repeat' split at h
      all_goals cases h
      all_goals assumption
    exact hname.symm
  · intro h
    rw [← ofName?_congr h]
    exact ofName?_name k

/-- The names of functions are those that mean a kind. -/
theorem isFunction_iff {n : String} : isFunction n = true ↔ ∃ k, ofName? n = some k := by
  simp only [isFunction, List.any_eq_true, beq_iff_eq, ofName?_eq_some_iff]
  constructor
  · rintro ⟨k, -, h⟩
    exact ⟨k, h⟩
  · rintro ⟨k, h⟩
    exact ⟨k, by cases k <;> decide, h⟩

end IndicatorKind

/-- An indicator over a number of bars. -/
structure Indicator where
  /-- What it computes. -/
  kind : IndicatorKind
  /-- Over how many bars. -/
  period : Nat
  deriving DecidableEq, Repr

namespace Indicator

/-- The indicator that a function name and a period mean. -/
def ofCall? (name : String) (period : Nat) : Option Indicator :=
  (IndicatorKind.ofName? name).map (⟨·, period⟩)

/-- The call that means the indicator. -/
def text (i : Indicator) : String := i.kind.name ++ "(" ++ toString i.period ++ ")"

/-- The bars after which the indicator is settled, as a count of 64 bits. -/
def settlingBars (i : Indicator) : Nat := min (i.period * i.kind.multiplier) maxCount

end Indicator

end TradeRules
