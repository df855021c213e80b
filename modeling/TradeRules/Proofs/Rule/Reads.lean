import TradeRules.Proofs.Expr.Inventory
import TradeRules.Proofs.Rule.Firing

/-!
# What a rule reads of a series

A rule reads the symbol and the newest bar of a series, and the indicators that its condition calls
and, if its size is an expression, that one too. Series which agree on these are the same to the
rule (`Rule.SameTo`): it fires on both or on neither, and comes to the same decision.
-/

namespace TradeRules

variable {α : Type} [Scalar α]

/-- The value of an indicator at the newest bar of a series. -/
def Series.indicator? (s : Series α) (i : Indicator) : Option α := i.value? s.closes s.volumes

namespace Context

/-- The indicators of a context are those of its series. -/
theorem indicator?_of {s : Series α} {c : Context α} (h : of s = .ok c) (i : Indicator) :
    c.indicator? i = s.indicator? i := by
  rw [indicator?, Series.indicator?, series_of h]

/-- A series without a bar gives no context. -/
theorem of_of_eq_none {s : Series α} (h : s.latest? = none) :
    of s = .error (.emptySeries s.symbol) := by
  unfold of
  split
  · rfl
  · rename_i bar hbar
    rw [h] at hbar
    cases hbar

/-- A series gives no context where a number of its newest bar is not finite. -/
theorem of_of_malformed {s : Series α} {bar : Bar α} {field : BarField}
    (h : s.latest? = some bar) (hfield : bar.firstNonFinite? = some field) :
    of s = .error (.malformedBar s.symbol field) := by
  unfold of
  split
  · rename_i hbar
    rw [h] at hbar
    cases hbar
  · rename_i bar' hbar
    obtain rfl : bar = bar' := Option.some.inj (h.symm.trans hbar)
    split
    · rename_i field' hfield'
      rw [Option.some.inj (hfield.symm.trans hfield')]
    · rename_i hfield'
      rw [hfield] at hfield'
      cases hfield'

/-- A series with a sound newest bar gives a context. -/
theorem of_of_sound {s : Series α} {bar : Bar α} (h : s.latest? = some bar)
    (hfinite : bar.firstNonFinite? = none) : of s = .ok ⟨s, bar, h, hfinite⟩ := by
  unfold of
  split
  · rename_i hbar
    rw [h] at hbar
    cases hbar
  · rename_i bar' hbar
    obtain rfl : bar = bar' := Option.some.inj (h.symm.trans hbar)
    split
    · rename_i field hfield
      rw [hfinite] at hfield
      cases hfield
    · rfl

/-- Series with the same symbol and the same newest bar give contexts with that bar, or none for the
same reason. -/
theorem of_congr {a b : Series α} (hsymbol : a.symbol = b.symbol)
    (hlatest : a.latest? = b.latest?) :
    (∃ e, of a = .error e ∧ of b = .error e) ∨
      ∃ c c', of a = .ok c ∧ of b = .ok c' ∧ c.current = c'.current := by
  cases hb : b.latest? with
  | none =>
    have ha : a.latest? = none := hlatest.trans hb
    rw [of_of_eq_none ha, of_of_eq_none hb, hsymbol]
    exact .inl ⟨_, rfl, rfl⟩
  | some bar =>
    have ha : a.latest? = some bar := hlatest.trans hb
    cases hfield : bar.firstNonFinite? with
    | some field =>
      rw [of_of_malformed ha hfield, of_of_malformed hb hfield, hsymbol]
      exact .inl ⟨_, rfl, rfl⟩
    | none => exact .inr ⟨_, _, of_of_sound ha hfield, of_of_sound hb hfield, rfl⟩

end Context

namespace Rule

/-- The expressions that a rule evaluates. -/
def texts (r : Rule) : List String :=
  match r.sizing with
  | .expression => [r.condition, r.size]
  | .fixed | .percentage => [r.condition]

variable (α) in
/-- The indicators that the expressions of a rule call, so far as these can be read and stay within
the vocabulary. -/
def indicators (r : Rule) : List Indicator :=
  r.texts.flatMap fun text =>
    match (readExpr text : Except (RuleError α) (Expr α)) with
    | .ok e => e.indicators
    | .error _ => []

/-- A rule evaluates its condition. -/
theorem condition_mem_texts (r : Rule) : r.condition ∈ r.texts := by
  unfold texts
  cases r.sizing <;> simp

/-- An indicator is among those of a rule where an expression of the rule calls it. -/
theorem mem_indicators {r : Rule} {i : Indicator} :
    i ∈ r.indicators α ↔
      ∃ text ∈ r.texts, ∃ e : Expr α, readExpr text = .ok e ∧ i ∈ e.indicators := by
  simp only [indicators, List.mem_flatMap]
  refine exists_congr fun text => and_congr_right fun _ => ?_
  cases readExpr (α := α) text <;> simp

/-- Two series are the same to a rule where it cannot tell them apart. -/
structure SameTo (r : Rule) (a b : Series α) : Prop where
  /-- They are called the same. -/
  symbol_eq : a.symbol = b.symbol
  /-- They end with the same bar. -/
  latest?_eq : a.latest? = b.latest?
  /-- The indicators that the rule calls have the same values. -/
  indicator?_eq : ∀ i ∈ r.indicators α, a.indicator? i = b.indicator? i

variable {r : Rule} {a b : Series α}

/-- On series that are the same to a rule, its condition comes to the same. -/
theorem SameTo.firing_eq (h : r.SameTo a b) :
    (∃ e, r.firing a = .error e ∧ r.firing b = .error e) ∨
      ∃ c c' fired, r.firing a = .ok (c, fired) ∧ r.firing b = .ok (c', fired) ∧
        c.current = c'.current ∧ ∀ i ∈ r.indicators α, c.indicator? i = c'.indicator? i := by
  cases hread : readExpr (α := α) r.condition with
  | error e => exact .inl ⟨e, by simp only [firing, hread], by simp only [firing, hread]⟩
  | ok e =>
    rcases Context.of_congr h.symbol_eq h.latest?_eq with ⟨err, ha, hb⟩ | ⟨c, c', ha, hb, hbar⟩
    · exact .inl ⟨.context err, by simp only [firing, hread, ha], by simp only [firing, hread, hb]⟩
    · have hvalues : ∀ i ∈ r.indicators α, c.indicator? i = c'.indicator? i := by
        intro i hi
        rw [Context.indicator?_of ha, Context.indicator?_of hb, h.indicator?_eq i hi]
      have hproperty := Context.property_congr fun f => congrArg (Bar.get · f) hbar
      have hfires : e.fires c = e.fires c' := Expr.fires_congr hproperty fun i hi =>
        hvalues i (mem_indicators.2 ⟨r.condition, condition_mem_texts r, e, hread, hi⟩)
      cases hc : e.fires c with
      | error err =>
        rw [hc] at hfires
        exact .inl ⟨.eval err, by simp only [firing, hread, ha, hc],
          by simp only [firing, hread, hb, ← hfires]⟩
      | ok fired =>
        rw [hc] at hfires
        exact .inr ⟨c, c', fired, by simp only [firing, hread, ha, hc],
          by simp only [firing, hread, hb, ← hfires], hbar, hvalues⟩

/-- In contexts that a rule cannot tell apart, it comes to the same size. -/
theorem computeSize_congr {c c' : Context α} (hbar : c.current = c'.current)
    (hvalues : ∀ i ∈ r.indicators α, c.indicator? i = c'.indicator? i) (cash : Option α) :
    computeSize c r.sizing r.size cash = computeSize c' r.sizing r.size cash := by
  have hprice : c.price = c'.price := congrArg Bar.close hbar
  cases hsizing : r.sizing with
  | fixed => rfl
  | percentage => simp only [computeSize, sharesForPercentage, hprice]
  | expression =>
    simp only [computeSize]
    cases hread : readExpr (α := α) r.size with
    | error e => rfl
    | ok e =>
      have hsize : r.size ∈ r.texts := by simp [texts, hsizing]
      have hproperty := Context.property_congr fun f => congrArg (Bar.get · f) hbar
      have heval : e.eval c = e.eval c' := Expr.eval_congr hproperty e fun i hi =>
        hvalues i (mem_indicators.2 ⟨r.size, hsize, e, hread, hi⟩)
      simp only [heval]

/-- On series that are the same to a rule, it comes to the same decision. -/
theorem SameTo.evaluate_eq {m : Type → Type} [Monad m] (h : r.SameTo a b)
    (cash : m (Except (SizingError α) (Option α))) : r.evaluate a cash = r.evaluate b cash := by
  rcases h.firing_eq with ⟨e, ha, hb⟩ | ⟨c, c', fired, ha, hb, hbar, hvalues⟩
  · simp only [evaluate, ha, hb]
  · have hprice : c.price = c'.price := congrArg Bar.close hbar
    have htrade (answer : Except (SizingError α) (Option α)) :
        r.trade c answer = r.trade c' answer := by
      simp only [trade, computeSize_congr hbar hvalues, hprice]
    cases fired with
    | false => simp only [evaluate, ha, hb, hprice]
    | true => simp only [evaluate, ha, hb, htrade]

/-- On series that are the same to a rule, it fires on both or on neither. -/
theorem SameTo.firesOn_iff (h : r.SameTo a b) : r.FiresOn a ↔ r.FiresOn b := by
  rw [Rule.firesOn_iff, Rule.firesOn_iff]
  rcases h.firing_eq with ⟨e, ha, hb⟩ | ⟨c, c', fired, ha, hb, -, -⟩
  · simp only [ha, hb, reduceCtorEq, exists_false]
  · simp only [ha, hb, Except.ok.injEq, Prod.mk.injEq, exists_and_right, exists_eq']

end Rule

end TradeRules
