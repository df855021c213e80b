import TradeRules.Batch.Plan
import TradeRules.Proofs.Rule.Reads

/-!
# The window of a rule

Of a longer history a rule is given the newest bars, as many as the window that is planned. The
plain means read their period and nothing before it, so that a window does as well as all of the
history once it holds the period; and the window of a rule holds the period of every indicator that
the rule calls, unless no window would. The exponential mean and the relative strength start at
the first bar of the window, wherever that is; a rule that calls neither decides on its window as on
all of the history (`Rule.evaluate_newest`).
-/

namespace TradeRules

variable {α : Type} [Scalar α]

/-- Whether an indicator carries its first values along. -/
def IndicatorKind.isSmoothed : IndicatorKind → Bool
  | .rsi | .ema => true
  | .sma | .avgVolume => false

/-- A mean over the newest values does not read those before its period. -/
theorem Average.mean?_drop {period limit : Nat} (h : period ≤ limit) (values : List α) :
    mean? period (values.drop (values.length - limit)) = mean? period values := by
  have hlength : (values.drop (values.length - limit)).length = min limit values.length := by
    rw [List.length_drop]
    omega
  have hdrop : (values.drop (values.length - limit)).drop (min limit values.length - period) =
      values.drop (values.length - limit + (min limit values.length - period)) := List.drop_drop
  unfold mean?
  rw [hlength]
  by_cases hshort : values.length < period
  · rw [if_pos (by omega), if_pos (by omega)]
  · by_cases hzero : period = 0
    · rw [if_pos (.inl hzero), if_pos (.inl hzero)]
    · have hplace : values.length - limit + (min limit values.length - period) =
          values.length - period := by omega
      rw [if_neg (by omega), if_neg (by omega), hdrop, hplace]

namespace Series

/-- A plain mean has the same value over a window that holds its period as over the whole series. -/
theorem indicator?_newest {i : Indicator} (hkind : i.kind.isSmoothed = false) {limit : Nat}
    (h : i.period ≤ limit) (s : Series α) : (s.newest limit).indicator? i = s.indicator? i := by
  have hcloses : (s.newest limit).closes = s.closes.drop (s.closes.length - limit) := by
    rw [closes, closes, newest, List.map_drop, List.length_map]
  have hvolumes : (s.newest limit).volumes = s.volumes.drop (s.volumes.length - limit) := by
    rw [volumes, volumes, newest, List.map_drop, List.length_map]
  unfold indicator? Indicator.value?
  cases hi : i.kind with
  | sma => simp only [hcloses, Average.mean?_drop h]
  | avgVolume => simp only [hvolumes, Average.mean?_drop h]
  | rsi | ema =>
    rw [hi] at hkind
    cases hkind

end Series

/-- An indicator takes at least its period to settle, as far as windows go. -/
theorem Indicator.min_period_le (i : Indicator) {n : Nat} (h : n ≤ Number.maxCount) :
    min i.period n ≤ min i.settlingBars n := by
  have hmultiplier : 1 ≤ i.kind.multiplier := by cases i.kind <;> decide
  have hperiod : i.period * 1 ≤ i.period * i.kind.multiplier := Nat.mul_le_mul_left _ hmultiplier
  rw [settlingBars]
  omega

/-- No text asks for more than the greatest window. -/
theorem lookbackOfText_le (text : String) : lookbackOfText α text ≤ Expr.maxLookback := by
  unfold lookbackOfText
  split
  · exact Expr.lookback_le _
  · decide

/-- Every text is given a window of two bars at least. -/
theorem two_le_lookbackOfText [CountsWhole α] (text : String) : 2 ≤ lookbackOfText α text := by
  unfold lookbackOfText
  split
  · exact Expr.two_le_lookback _
  · decide

namespace Rule

variable (r : Rule)

/-- The window of a rule is the longest of its expressions. -/
theorem lookback_eq : r.lookback α = (r.texts.map (lookbackOfText α)).max?.getD 0 := by
  unfold lookback texts
  cases r.sizing <;> simp [List.max?]

/-- No rule asks for more than the greatest window. -/
theorem lookback_le : r.lookback α ≤ Expr.maxLookback := by
  unfold lookback
  split
  · exact Nat.max_le.2 ⟨lookbackOfText_le _, lookbackOfText_le _⟩
  · exact lookbackOfText_le _
  · exact lookbackOfText_le _

/-- Every rule is given a window of two bars at least. -/
theorem two_le_lookback [CountsWhole α] : 2 ≤ r.lookback α := by
  unfold lookback
  split
  · exact Nat.le_trans (two_le_lookbackOfText _) (Nat.le_max_left _ _)
  · exact two_le_lookbackOfText _
  · exact two_le_lookbackOfText _

/-- No rule does without a window. -/
theorem lookback_pos [CountsWhole α] : 0 < r.lookback α :=
  Nat.lt_of_lt_of_le (by decide) r.two_le_lookback

variable {r}

/-- The window of a rule lets each indicator that the rule calls settle, unless that takes longer than
any window. -/
theorem settlingBars_le_lookback {i : Indicator} (h : i ∈ r.indicators α) :
    min i.settlingBars Expr.maxLookback ≤ r.lookback α := by
  obtain ⟨text, htext, e, hread, hi⟩ := mem_indicators.1 h
  have hlookback : lookbackOfText α text = e.lookback := by
    rw [lookbackOfText, (readExpr_eq_ok_iff.1 hread).1]
  have hmem : lookbackOfText α text ∈ r.texts.map (lookbackOfText α) :=
    List.mem_map.2 ⟨text, htext, rfl⟩
  have hlongest : lookbackOfText α text ≤ r.lookback α := by
    rw [lookback_eq]
    exact List.le_max?_getD_of_mem hmem
  rw [hlookback] at hlongest
  exact Nat.le_trans (Expr.settlingBars_le_lookback hi) hlongest

/-- The window of a rule holds the period of each indicator that the rule calls, unless no window
does. -/
theorem min_period_le_lookback {i : Indicator} (h : i ∈ r.indicators α) :
    min i.period Expr.maxLookback ≤ r.lookback α :=
  Nat.le_trans (i.min_period_le (by decide)) (settlingBars_le_lookback h)

/-- To a rule that calls plain means only, over no more bars than the greatest window has, a series
and its newest bars are the same, as long as these fill the rule's window. -/
theorem sameTo_newest [CountsWhole α]
    (h : ∀ i ∈ r.indicators α, i.kind.isSmoothed = false ∧ i.period ≤ Expr.maxLookback)
    {limit : Nat} (hlimit : r.lookback α ≤ limit) (s : Series α) :
    r.SameTo (s.newest limit) s where
  symbol_eq := rfl
  latest?_eq := Series.latest?_newest (Nat.lt_of_lt_of_le r.lookback_pos hlimit) s
  indicator?_eq i hi := by
    obtain ⟨hkind, hperiod⟩ := h i hi
    have hwindow : i.period ≤ r.lookback α := by
      calc i.period = min i.period Expr.maxLookback := (Nat.min_eq_left hperiod).symm
        _ ≤ r.lookback α := min_period_le_lookback hi
    exact Series.indicator?_newest hkind (Nat.le_trans hwindow hlimit) s

/-- A rule that calls plain means only, over no more bars than the greatest window has, comes to the
same decision or the same error on a series and on its newest bars, as long as these fill the rule's
window, however its question for cash is answered. -/
theorem evaluate_newest [CountsWhole α] {m : Type → Type} [Monad m]
    (h : ∀ i ∈ r.indicators α, i.kind.isSmoothed = false ∧ i.period ≤ 365) {limit : Nat}
    (hlimit : r.lookback α ≤ limit) (s : Series α)
    (cash : m (Except (SizingError α) (Option α))) :
    r.evaluate (s.newest limit) cash = r.evaluate s cash :=
  (sameTo_newest h hlimit s).evaluate_eq cash

/-- Of eight bars the newest six fill the window of a rule that calls a mean of three volumes. The
older two are no numbers, which does not show: the rule trades 120 shares on either series. -/
theorem evaluate_newest_six :
    let rule : Rule := ⟨"1", "alice", "X", "close < SMA(2)", .buy, .expression,
      "avgVolume(3) / 10", true⟩
    let bar (hour : Fin 24) (close : Float) : Bar Float :=
      ⟨⟨2024, 1, 1, hour, 0, 0, by decide, by revert hour; decide⟩, close, close, close, close, 1200⟩
    let s : Series Float := ⟨"X", [bar 0 (0 / 0), bar 1 (1 / 0), bar 2 7, bar 3 6, bar 4 5, bar 5 4,
      bar 6 3, bar 7 2]⟩
    let shares (d : Except (RuleError Float) (Decision Float)) := d.toOption.map Decision.shares
    (∀ i ∈ rule.indicators Float, i.kind.isSmoothed = false ∧ i.period ≤ 365) ∧
      rule.lookback Float ≤ 6 ∧
      rule.evaluate (s.newest 6) (some (.ok none)) = rule.evaluate s (some (.ok none)) ∧
      (rule.evaluate s (some (.ok none))).map shares = some (some 120) := by
  intro rule bar s shares
  have hcalls : rule.indicators Float = [⟨.sma, 2⟩, ⟨.avgVolume, 3⟩] := by decide +kernel
  have hmeans : ∀ i ∈ rule.indicators Float, i.kind.isSmoothed = false ∧ i.period ≤ 365 := by
    rw [hcalls]
    decide
  have hwindow : rule.lookback Float ≤ 6 := by decide +kernel
  exact ⟨hmeans, hwindow, evaluate_newest hmeans hwindow s (some (.ok none)), by decide +kernel⟩

end Rule

end TradeRules
