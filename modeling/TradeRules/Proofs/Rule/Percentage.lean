import TradeRules.Proofs.Number.Rational
import TradeRules.Proofs.Rule.Shares

/-!
# What a percentage of the cash buys

In exact arithmetic a percentage of some cash buys the greatest number of shares that it pays for. A
rule that is sized so and fires trades that number, or fails where not even one share is paid for
(`Rule.evaluate_percentage_of_lt`, `Rule.evaluate_percentage_of_le`); whatever it trades is paid for
by its percentage of the cash (`Rule.total_le_of_evaluate`).
-/

namespace TradeRules

open Number

namespace Scalar

/-- The whole shares that an exact amount buys, as far as they can be counted. -/
theorem toCount_floor_rat (x : ℚ) : toCount (floor x) = min ⌊x⌋₊ maxCount := by
  change min ⌊((⌊x⌋ : ℤ) : ℚ)⌋.toNat maxCount = _
  rw [Int.floor_intCast, Int.floor_toNat]

/-- No more shares are counted than an amount buys. -/
theorem toCount_floor_rat_le {x : ℚ} (h : 0 ≤ x) : (toCount (floor x) : ℚ) ≤ x := by
  have hcount : toCount (floor x) ≤ ⌊x⌋₊ := by
    rw [toCount_floor_rat]
    exact Nat.min_le_left _ _
  exact (Nat.cast_le.2 hcount).trans (Nat.floor_le h)

/-- At least one share is counted where an amount buys one. -/
theorem one_le_toCount_floor_rat {x : ℚ} (h : 1 ≤ x) : 1 ≤ toCount (floor x) := by
  rw [toCount_floor_rat, Nat.le_min]
  exact ⟨Nat.le_floor (by exact_mod_cast h), by decide⟩

/-- One share more than what is counted is not bought, as long as all that are bought can be
counted. -/
theorem lt_toCount_floor_rat_add_one {x : ℚ} (h : x < 2 ^ 64) : x < toCount (floor x) + 1 := by
  have hbound : ⌊x⌋₊ < 2 ^ 64 := (Nat.floor_lt' (by decide)).2 (by exact_mod_cast h)
  have hcount : ⌊x⌋₊ ≤ maxCount := Nat.le_sub_one_of_lt hbound
  rw [toCount_floor_rat, Nat.min_eq_left hcount]
  exact Nat.lt_floor_add_one x

/-- An amount is not enough for a share where its floor is zero or less. -/
theorem atMost_floor_rat_iff {x : ℚ} : atMost (floor x) zero = true ↔ x < 1 := by
  have hfloor : atMost (floor x) zero = decide (((⌊x⌋ : ℤ) : ℚ) ≤ 0) := by
    rw [zero_rat]
    rfl
  have hint : ⌊x⌋ ≤ 0 ↔ x < 1 := by
    rw [← Int.lt_add_one_iff, zero_add, Int.floor_lt, Int.cast_one]
  rw [hfloor, decide_eq_true_iff, Int.cast_nonpos, hint]

end Scalar

/-- The size that a text spells is above zero. -/
theorem pos_of_positiveSize? {text : String} {x : ℚ} (h : positiveSize? text = some x) : 0 < x := by
  unfold positiveSize? at h
  split at h
  · dsimp only at h
    split at h
    · rename_i hpositive
      cases h
      have habove := (Bool.and_eq_true_iff.1 hpositive).2
      rw [Bool.not_eq_true', Scalar.zero_rat] at habove
      exact not_le.1 (of_decide_eq_false habove)
    · cases h
  · cases h

/-- A percentage of some cash buys shares where it is at most 100 and the price is above zero. -/
theorem sharesForPercentage_eq_ok_iff {c : Context ℚ} {percent : ℚ} {funds : Option ℚ} {size : ℚ} :
    sharesForPercentage c percent funds = .ok size ↔ ∃ cash, funds = some cash ∧ percent ≤ 100 ∧
      0 < c.price ∧ size = cash * percent / 100 / c.price := by
  have hless : Scalar.less (Scalar.ofCount 100) percent = decide ((100 : ℚ) < percent) := by
    rw [Scalar.ofCount_rat]
    rfl
  have hprice : Scalar.atMost c.price Scalar.zero = decide (c.price ≤ 0) := by
    rw [Scalar.zero_rat]
    rfl
  unfold sharesForPercentage
  rw [hless, hprice]
  by_cases hpercent : percent ≤ 100
  · rw [if_neg (by simpa using hpercent)]
    cases funds with
    | none => simp
    | some cash =>
      by_cases hpos : 0 < c.price
      · simp only [hpos, not_le.2 hpos, hpercent, decide_false, Bool.false_eq_true, if_false,
          true_and, Except.ok.injEq, Option.some.injEq, exists_eq_left', Scalar.ofCount_rat,
          Nat.cast_ofNat, eq_comm (b := size)]
      · simp [hpos, not_lt.1 hpos]
  · rw [if_pos (by simpa using hpercent)]
    simp [hpercent]

/-- A size by percentage is a percentage of some cash, in shares. -/
theorem computeSize_percentage_eq_ok_iff {c : Context ℚ} {text : String} {funds : Option ℚ}
    {size : ℚ} :
    computeSize c .percentage text funds = .ok size ↔ ∃ percent, positiveSize? text = some percent ∧
      sharesForPercentage c percent funds = .ok size := by
  unfold computeSize
  cases (positiveSize? text : Option ℚ) with
  | none => simp
  | some percent =>
    cases hshares : sharesForPercentage c percent funds <;> simp [hshares, Except.mapError]

namespace Rule

variable {r : Rule} {s : Series ℚ} {c : Context ℚ} {percent cash : ℚ}

/-- The size of a rule by percentage, its percentage within bounds and the price above zero. -/
theorem computeSize_of_percent (hsizing : r.sizing = .percentage)
    (hpercent : positiveSize? r.size = some percent) (hbound : percent ≤ 100)
    (hprice : 0 < c.price) (cash : ℚ) :
    computeSize c r.sizing r.size (some cash) = .ok (cash * percent / 100 / c.price) := by
  rw [hsizing, computeSize_percentage_eq_ok_iff]
  exact ⟨percent, hpercent, sharesForPercentage_eq_ok_iff.2 ⟨cash, rfl, hbound, hprice, rfl⟩⟩

/-- A rule that fires is settled by what its trade comes to in the context of the series. -/
theorem evaluate_of_firing (hcontext : Context.of s = .ok c) (hfires : r.FiresOn s)
    (answer : Except (SizingError ℚ) (Option ℚ)) :
    Id.run (r.evaluate s (pure answer)) = r.trade c answer := by
  obtain ⟨c', hfiring⟩ := firesOn_iff.1 hfires
  obtain ⟨e, -, -, hcontext', -⟩ := firing_eq_ok_iff.1 hfiring
  rw [hcontext] at hcontext'
  cases hcontext'
  simp only [evaluate, hfiring]
  rfl

/-- A rule by percentage that fires fails where its percentage of the cash does not pay for one
share. -/
theorem evaluate_percentage_of_lt (hcontext : Context.of s = .ok c) (hfires : r.FiresOn s)
    (hsizing : r.sizing = .percentage) (hpercent : positiveSize? r.size = some percent)
    (hbound : percent ≤ 100) (hprice : 0 < c.price) (hcash : 0 ≤ cash)
    (hshort : cash * percent / 100 < c.price) :
    Id.run (r.evaluate s (pure (.ok (some cash)))) = .error (.sizing (.nonPositive 0)) := by
  have hpos := pos_of_positiveSize? hpercent
  have hsize : cash * percent / 100 / c.price < 1 := (div_lt_one hprice).2 hshort
  have hfloor : Scalar.floor (cash * percent / 100 / c.price) = 0 := by
    have hzero : ⌊cash * percent / 100 / c.price⌋ = 0 :=
      Int.floor_eq_zero_iff.2 ⟨by positivity, hsize⟩
    change ((⌊cash * percent / 100 / c.price⌋ : ℤ) : ℚ) = 0
    rw [hzero, Int.cast_zero]
  rw [evaluate_of_firing hcontext hfires]
  simp only [trade, computeSize_of_percent hsizing hpercent hbound hprice]
  rw [if_pos (Scalar.atMost_floor_rat_iff.2 hsize), hfloor]

/-- A rule by percentage that fires trades what its percentage of the cash buys, where that pays for
a share. -/
theorem evaluate_percentage_of_le (hcontext : Context.of s = .ok c) (hfires : r.FiresOn s)
    (hsizing : r.sizing = .percentage) (hpercent : positiveSize? r.size = some percent)
    (hbound : percent ≤ 100) (hprice : 0 < c.price) (hshare : c.price ≤ cash * percent / 100) :
    Id.run (r.evaluate s (pure (.ok (some cash)))) = .ok (.trade
      (Scalar.toCount (Scalar.floor (cash * percent / 100 / c.price))) c.price) := by
  have hsize : ¬cash * percent / 100 / c.price < 1 := not_lt.2 ((one_le_div hprice).2 hshare)
  rw [evaluate_of_firing hcontext hfires]
  simp only [trade, computeSize_of_percent hsizing hpercent hbound hprice]
  rw [if_neg (mt Scalar.atMost_floor_rat_iff.1 hsize)]

/-- What a rule by percentage trades is paid for by that percentage of the cash. -/
theorem total_le_of_evaluate (hsizing : r.sizing = .percentage)
    {answer : Except (SizingError ℚ) (Option ℚ)} {d : Decision ℚ}
    (h : Id.run (r.evaluate s (pure answer)) = .ok d) (htrade : d.isTrade = true) :
    ∃ percent cash, positiveSize? r.size = some percent ∧ percent ≤ 100 ∧
      answer = .ok (some cash) ∧ d.total ≤ cash * percent / 100 := by
  obtain ⟨c, -, rfl | hd⟩ := hold_or_trade_of_evaluate h
  · cases htrade
  obtain ⟨funds, size, rfl, hsize, hpositive, rfl⟩ := eq_trade_of_trade hd
  rw [hsizing, computeSize_percentage_eq_ok_iff] at hsize
  obtain ⟨percent, hpercent, hshares⟩ := hsize
  obtain ⟨cash, rfl, hbound, hprice, rfl⟩ := sharesForPercentage_eq_ok_iff.1 hshares
  refine ⟨percent, cash, hpercent, hbound, rfl, ?_⟩
  have hone : 1 ≤ cash * percent / 100 / c.price := by
    by_contra hless
    rw [Scalar.atMost_floor_rat_iff.2 (not_le.1 hless)] at hpositive
    cases hpositive
  have hcount := Scalar.toCount_floor_rat_le (zero_le_one.trans hone)
  exact (le_div_iff₀ hprice).1 hcount

end Rule

end TradeRules
