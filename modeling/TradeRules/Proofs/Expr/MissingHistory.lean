import TradeRules.Proofs.Expr.Kinds

/-!
# Conditions with less history

With less history some indicators have no value. An amount, which is built by arithmetic alone, then
has the value that it would have with more history, or none. A condition that is built of amounts
and their comparisons by `AND` and `OR`, without `NOT` and `!=`, can only turn from true to false:
where it fires with less history it fires with more, if it can be evaluated there at all
(`Expr.fires_of_forgets`).
-/

namespace TradeRules

variable {α : Type}

namespace Expr

/-- Expressions that arithmetic is done with. -/
inductive IsAmount : Expr α → Prop where
  /-- A number. -/
  | literal (x : α) : IsAmount (.literal x)
  /-- A property. -/
  | name (n : String) : IsAmount (.name n)
  /-- A call. -/
  | call (f : String) (args : List (Expr α)) : IsAmount (.call f args)
  /-- What is computed of amounts. -/
  | compute {l r : Expr α} (a : Arithmetic) (left : IsAmount l) (right : IsAmount r) :
    IsAmount (.binary (.compute a) l r)

/-- Conditions in which nothing is negated. -/
inductive IsPositive : Expr α → Prop where
  /-- An amount, which holds unless it is zero. -/
  | amount {e : Expr α} (h : e.IsAmount) : IsPositive e
  /-- A comparison of amounts, but not for being different. -/
  | compare {c : Comparison} {l r : Expr α} (differs : c ≠ .ne) (left : l.IsAmount)
    (right : r.IsAmount) : IsPositive (.binary (.compare c) l r)
  /-- Both of two such conditions. -/
  | and {l r : Expr α} (left : IsPositive l) (right : IsPositive r) : IsPositive (.binary .and l r)
  /-- Either of two such conditions. -/
  | or {l r : Expr α} (left : IsPositive l) (right : IsPositive r) : IsPositive (.binary .or l r)

/-- An amount is no condition. -/
theorem IsAmount.isCondition {e : Expr α} (h : e.IsAmount) : e.isCondition = false := by
  cases h <;> rfl

end Expr

variable [Scalar α]

/-- `c.Forgets c' called`: the context `c'` has the newest bar of `c`, and each indicator that is
called has in it the value that it has in `c`, or none. -/
structure Context.Forgets (c c' : Context α) (called : List Indicator) : Prop where
  /-- The newest bar is the same. -/
  current_eq : c'.current = c.current
  /-- A value is kept or lost, and never changed. -/
  indicator?_eq : ∀ i ∈ called, c'.indicator? i = c.indicator? i ∨ c'.indicator? i = none

namespace Context.Forgets

variable {c c' : Context α} {called more : List Indicator}

/-- A context that forgets of some indicators forgets of the first of them. -/
theorem left (h : c.Forgets c' (called ++ more)) : c.Forgets c' called :=
  ⟨h.current_eq, fun i hi => h.indicator?_eq i (List.mem_append_left _ hi)⟩

/-- A context that forgets of some indicators forgets of the last of them. -/
theorem right (h : c.Forgets c' (called ++ more)) : c.Forgets c' more :=
  ⟨h.current_eq, fun i hi => h.indicator?_eq i (List.mem_append_right _ hi)⟩

/-- Properties are not forgotten. -/
theorem property_eq (h : c.Forgets c' called) (p : Property) : c'.property p = c.property p := by
  cases p <;> simp only [property, h.current_eq]

end Context.Forgets

namespace Value

/-- What compares well without a test for being different is two present values. -/
theorem isAbsent_of_compare {c : Comparison} (hc : c ≠ .ne) {x y : Value α}
    (h : compare c x y = .ok true) : x.isAbsent = false ∧ y.isAbsent = false := by
  have hne : (c == .ne) = false := beq_false_of_ne hc
  cases x with
  | absent => cases y <;> simp [compare, hne] at h
  | truth _ | number _ =>
    cases y with
    | absent => simp [compare, hne] at h
    | truth _ | number _ => exact ⟨rfl, rfl⟩

end Value

namespace Expr

variable {c c' : Context α} {e : Expr α}

/-- An amount that is present has a number. -/
theorem IsAmount.exists_number (h : e.IsAmount) {v : Value α} (hv : e.eval c = .ok v)
    (hpresent : v.isAbsent = false) : ∃ x, v = .number x := by
  cases v with
  | number x => exact ⟨x, rfl⟩
  | absent => cases hpresent
  | truth b =>
    have htruth := isTruth_of_eval hv
    rw [h.isCondition] at htruth
    cases htruth

/-- An amount that is present with less history has the same value with more. -/
theorem IsAmount.eval_eq (h : e.IsAmount) (hforgets : c.Forgets c' e.indicators) {x : α}
    (hx : e.eval c' = .ok (.number x)) : e.eval c = .ok (.number x) := by
  induction h generalizing x with
  | literal _ => exact hx
  | name n =>
    simp only [eval, hforgets.property_eq] at hx
    exact hx
  | call f args =>
    rw [eval] at hx ⊢
    split at hx
    · rename_i i hcall
      rcases hforgets.indicator?_eq i (mem_indicators_call hcall) with hsame | hnone
      · rw [hsame] at hx
        exact hx
      · rw [hnone] at hx
        cases hx
    · cases hx
  | compute a left right ihl ihr =>
    rw [indicators_binary] at hforgets
    obtain ⟨v, w, hv, hw, happly⟩ := eval_binary_eq_ok_iff.1 hx
    rcases Value.absent_or_numbers_of_compute happly with ⟨-, habsent⟩ | ⟨m, n, z, rfl, rfl, -⟩
    · cases habsent
    · exact eval_binary_eq_ok_iff.2
        ⟨_, _, ihl hforgets.left hv, ihr hforgets.right hw, happly⟩

/-- What holds with less history holds with more, where it has a value there. -/
theorem IsPositive.holds_of_holds (h : e.IsPositive) (hforgets : c.Forgets c' e.indicators)
    {v v' : Value α} (hv : e.eval c = .ok v) (hv' : e.eval c' = .ok v')
    (hholds : v'.holds = true) : v.holds = true := by
  induction h generalizing v v' with
  | amount hamount =>
    obtain ⟨x, rfl⟩ := hamount.exists_number hv' (Value.isAbsent_of_holds hholds)
    rw [hamount.eval_eq hforgets hv'] at hv
    cases hv
    exact hholds
  | compare hdiffers left right =>
    rename_i test l r
    rw [indicators_binary] at hforgets
    obtain ⟨x', y', hx', hy', happly'⟩ := eval_binary_eq_ok_iff.1 hv'
    have htrue : Value.compare test x' y' = .ok true := by
      rw [Value.apply] at happly'
      split at happly' <;> cases happly'
      rename_i b hb
      rw [hb, show b = true from hholds]
    -- Both operands are present, so they are the same numbers with more history.
    obtain ⟨hxpresent, hypresent⟩ := Value.isAbsent_of_compare hdiffers htrue
    obtain ⟨m, rfl⟩ := left.exists_number hx' hxpresent
    obtain ⟨n, rfl⟩ := right.exists_number hy' hypresent
    have hsame := eval_binary_eq_ok_iff.2
      ⟨_, _, left.eval_eq hforgets.left hx', right.eval_eq hforgets.right hy', happly'⟩
    rw [hsame] at hv
    cases hv
    exact hholds
  | and left right ihl ihr =>
    rw [indicators_binary] at hforgets
    obtain ⟨x, y, hx, hy, happly⟩ := eval_binary_eq_ok_iff.1 hv
    obtain ⟨x', y', hx', hy', happly'⟩ := eval_binary_eq_ok_iff.1 hv'
    cases happly
    cases happly'
    simp only [Value.holds, Value.both, Bool.and_eq_true] at hholds ⊢
    have hxholds := ihl hforgets.left hx hx' hholds.2.1
    have hyholds := ihr hforgets.right hy hy' hholds.2.2
    rw [Value.isAbsent_of_holds hxholds, Value.isAbsent_of_holds hyholds]
    exact ⟨⟨rfl, rfl⟩, hxholds, hyholds⟩
  | or left right ihl ihr =>
    rw [indicators_binary] at hforgets
    obtain ⟨x, y, hx, hy, happly⟩ := eval_binary_eq_ok_iff.1 hv
    obtain ⟨x', y', hx', hy', happly'⟩ := eval_binary_eq_ok_iff.1 hv'
    cases happly
    cases happly'
    simp only [Value.holds, Value.either_eq, Bool.or_eq_true] at hholds ⊢
    exact hholds.imp (ihl hforgets.left hx hx') (ihr hforgets.right hy hy')

/-- A condition in which nothing is negated, and which fires with less history, fires with more if
it can be evaluated there. -/
theorem fires_of_forgets (he : e.IsPositive) (hforgets : c.Forgets c' e.indicators) {b : Bool}
    (hfires : e.fires c = .ok b) (hfires' : e.fires c' = .ok true) : b = true := by
  obtain ⟨v, hv, -, rfl⟩ := fires_eq_ok_iff.1 hfires
  obtain ⟨v', hv', -, hholds⟩ := fires_eq_ok_iff.1 hfires'
  exact he.holds_of_holds hforgets hv hv' hholds

/-- On the newest of two bars there is no mean over two. A condition that fires there on account of
its other operand fires on both bars as well, whatever the mean is. -/
theorem fires_of_forgets_mean :
    let bar (hour : Fin 24) (close : Float) : Bar Float :=
      ⟨⟨2024, 3, 1, hour, 0, 0, by decide, by revert hour; decide⟩, close, close, close, close, 900⟩
    let c : Context Float := ⟨⟨"A", [bar 0 20, bar 1 50]⟩, bar 1 50, rfl, by decide +kernel⟩
    let c' : Context Float := ⟨⟨"A", [bar 1 50]⟩, bar 1 50, rfl, by decide +kernel⟩
    let mean : Expr Float := .call "SMA" [.literal 2]
    let e : Expr Float := .binary .or (.binary (.compare .gt) mean (.name "close"))
      (.binary .and (.binary (.compare .le) (.literal 40) (.name "price")) (.name "volume"))
    e.IsPositive ∧ c.Forgets c' e.indicators ∧ (c.indicator? ⟨.sma, 2⟩).isSome ∧
      c'.indicator? ⟨.sma, 2⟩ = none ∧ e.fires c' = .ok true ∧ (e.fires c).isOk ∧
      ∀ b, e.fires c = .ok b → b = true := by
  intro bar c c' mean e
  have hpositive : e.IsPositive :=
    .or (.compare (by decide) (.call _ _) (.name _))
      (.and (.compare (by decide) (.literal _) (.name _)) (.amount (.name _)))
  have hindicators : e.indicators = [⟨.sma, 2⟩] := by decide +kernel
  have hnone : c'.indicator? ⟨.sma, 2⟩ = none := by rfl
  have hforgets : c.Forgets c' e.indicators := by
    refine ⟨rfl, fun i hi => .inr ?_⟩
    rw [hindicators, List.mem_singleton] at hi
    rw [hi, hnone]
  have hfires' : e.fires c' = .ok true := by decide +kernel
  exact ⟨hpositive, hforgets, by decide +kernel, hnone, hfires', by decide +kernel,
    fun b hb => fires_of_forgets hpositive hforgets hb hfires'⟩

end Expr

end TradeRules
