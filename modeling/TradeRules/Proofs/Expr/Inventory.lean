import TradeRules.Expr.Eval
import TradeRules.Proofs.Expr.Call
import TradeRules.Proofs.Number.Whole

/-!
# What an expression reads

An expression reads the newest bar and the indicators that its calls mean, and nothing else of a
context (`Expr.eval_congr`). The window that is planned for it has two bars at least, and is as long
as each of these indicators takes to settle, where that is possible at all.
-/

namespace TradeRules

variable {α : Type} [Scalar α]

/-- The properties that a context gives are the numbers of its newest bar. -/
theorem Context.property_congr {c c' : Context α}
    (h : ∀ f, c.current.get f = c'.current.get f) (p : Property) :
    c.property p = c'.property p := by
  cases p with
  | close | price => exact h .close
  | opening => exact h .opening
  | high => exact h .high
  | low => exact h .low
  | volume => exact h .volume

namespace Expr

/-- A negation calls what its operand calls. -/
theorem indicators_not (e : Expr α) : (Expr.not e).indicators = e.indicators := by
  rw [indicators, indicators, calls]

/-- An operator calls what its operands call, from the left. -/
theorem indicators_binary (op : BinaryOp) (l r : Expr α) :
    (binary op l r).indicators = l.indicators ++ r.indicators := by
  rw [indicators, calls, List.filterMap_append]
  rfl

/-- A call in an expression that means an indicator gives an indicator of the expression. -/
theorem mem_indicators_of_mem_calls {e : Expr α} {f : String} {args : List (Expr α)}
    {i : Indicator} (h : (f, args) ∈ e.calls) (hi : resolveCall f args = .ok i) :
    i ∈ e.indicators := by
  refine List.mem_filterMap.2 ⟨(f, args), h, ?_⟩
  simp only [hi]
  rfl

/-- A call that means an indicator is one of the calls. -/
theorem mem_indicators_call {f : String} {args : List (Expr α)} {i : Indicator}
    (h : resolveCall f args = .ok i) : i ∈ (call f args).indicators := by
  refine mem_indicators_of_mem_calls ?_ h
  rw [calls]
  exact List.mem_cons_self

/-- A call within the vocabulary calls one indicator, since its argument is a literal. -/
theorem indicators_call {f : String} {args : List (Expr α)} {i : Indicator}
    (h : resolveCall f args = .ok i) : (call f args).indicators = [i] := by
  obtain ⟨x, rfl⟩ := eq_literal_of_resolveCall h
  simp only [indicators, calls, callsIn, List.append_nil, List.filterMap_cons, List.filterMap_nil, h]
  rfl

/-- Contexts with the same properties and the same values of the indicators that an expression calls
give it the same value. -/
theorem eval_congr {c c' : Context α} (hproperty : ∀ p, c.property p = c'.property p) :
    ∀ e : Expr α, (∀ i ∈ e.indicators, c.indicator? i = c'.indicator? i) → e.eval c = e.eval c'
  | .literal _, _ => rfl
  | .name n, _ => by simp only [eval, hproperty]
  | .call f args, h => by
    simp only [eval]
    cases hcall : resolveCall f args with
    | error e => rfl
    | ok i => simp only [h i (mem_indicators_call hcall)]
  | .not e, h => by
    rw [indicators_not] at h
    simp only [eval, eval_congr hproperty e h]
  | .binary op l r, h => by
    rw [indicators_binary] at h
    have hl := eval_congr hproperty l fun i hi => h i (List.mem_append_left _ hi)
    have hr := eval_congr hproperty r fun i hi => h i (List.mem_append_right _ hi)
    simp only [eval, hl, hr]

/-- Such contexts also agree on whether an expression holds as a condition. -/
theorem fires_congr {c c' : Context α} (hproperty : ∀ p, c.property p = c'.property p) {e : Expr α}
    (h : ∀ i ∈ e.indicators, c.indicator? i = c'.indicator? i) : e.fires c = e.fires c' := by
  rw [fires, fires, eval_congr hproperty e h]

/-- The window of an expression lets each of its indicators settle, unless that takes longer than
any window. -/
theorem settlingBars_le_lookback {e : Expr α} {i : Indicator} (h : i ∈ e.indicators) :
    min i.settlingBars maxLookback ≤ e.lookback := by
  have hmem : i.settlingBars ∈ e.indicators.map Indicator.settlingBars :=
    List.mem_map.2 ⟨i, h, rfl⟩
  have hmax : i.settlingBars ≤ (e.indicators.map Indicator.settlingBars).max?.getD defaultLookback :=
    List.le_max?_getD_of_mem hmem
  rw [lookback]
  omega

/-- A call within the vocabulary means an indicator over one bar at least. -/
theorem period_pos [CountsWhole α] {f : String} {args : List (Expr α)} {i : Indicator}
    (h : resolveCall f args = .ok i) : 0 < i.period := by
  obtain ⟨k, x, -, -, hpos, hwhole, rfl⟩ := resolveCall_eq_ok_iff.1 h
  exact CountsWhole.toCount_pos x hpos hwhole

/-- An indicator that an expression calls is over one bar at least. -/
theorem period_pos_of_mem [CountsWhole α] {e : Expr α} {i : Indicator} (h : i ∈ e.indicators) :
    0 < i.period := by
  rw [indicators, List.mem_filterMap] at h
  obtain ⟨⟨f, args⟩, -, hcall⟩ := h
  cases hresolve : resolveCall f args with
  | error e => simp [hresolve, Except.toOption] at hcall
  | ok j =>
    simp only [hresolve, Except.toOption, Option.some.injEq] at hcall
    exact hcall ▸ period_pos hresolve

/-- An indicator that an expression calls takes two bars at least to settle. -/
theorem two_le_settlingBars [CountsWhole α] {e : Expr α} {i : Indicator} (h : i ∈ e.indicators) :
    2 ≤ i.settlingBars := by
  have hperiod : 1 ≤ i.period := period_pos_of_mem h
  have hmultiplier : 2 ≤ i.kind.multiplier := by cases i.kind <;> decide
  have hmaxCount : 2 ≤ Number.maxCount := by decide
  exact Nat.le_min.2 ⟨Nat.mul_le_mul hperiod hmultiplier, hmaxCount⟩

/-- Every expression is given a window of two bars at least. -/
theorem two_le_lookback [CountsWhole α] (e : Expr α) : 2 ≤ e.lookback := by
  cases hcalls : e.indicators with
  | nil =>
    rw [lookback, hcalls]
    decide
  | cons i is =>
    have hi : i ∈ e.indicators := by
      rw [hcalls]
      exact List.mem_cons_self
    have htwo := two_le_settlingBars hi
    have hle := settlingBars_le_lookback hi
    have hmaxLookback : maxLookback = 365 := rfl
    omega

end Expr

end TradeRules
