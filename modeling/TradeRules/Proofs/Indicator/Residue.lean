import TradeRules.Proofs.Indicator.Positions
import TradeRules.Proofs.Number.Sums

/-!
# What a running sum keeps

The history of a plain mean keeps one sum for the whole row. On doubles, a value that is taken away
does not always take back all that it did when it was added. The points are the means of their
windows as long as no sum of a window with one value more is rounded
(`Average.getElem?_rolling_of_rollsExactly`). What is not finite never leaves: from its bar on, no
point is finite, and once it has been taken away, none is a number
(`Average.getElem?_rolling_of_not_isFinite`). The direct form reads the last window only.
-/

namespace TradeRules

open Number Number.Binary64

namespace Average

/-! ### Sums that are not rounded -/

/-- Doubles that a window can be rolled over without rounding, one value longer than it is. -/
def RollsExactly (period : Nat) (values : List Float) : Prop :=
  ∃ q, ∀ start, AddsExactly q ((values.drop start).take (period + 1))

/-- The sum of a window is that of the last values. -/
theorem windowSum_rationals (size : Nat) (values : List Float) :
    windowSum size (rationals values) =
      (rationals (values.drop (values.length - size))).sum := by
  rw [windowSum, length_rationals, rationals, rationals, List.map_drop]

namespace RollsExactly

variable {period : Nat} {values : List Float}

/-- A row that adds up without rounding can be rolled over. -/
theorem of_addsExactly {q : ℤ} (h : AddsExactly q values) (period : Nat) :
    RollsExactly period values :=
  ⟨q, fun _ => h.sublist ((List.take_sublist _ _).trans (List.drop_sublist _ _))⟩

/-- The beginning of a row can be rolled over where the row can. -/
theorem of_append {rest : List Float} (h : RollsExactly period (values ++ rest)) :
    RollsExactly period values := by
  obtain ⟨q, h⟩ := h
  refine ⟨q, fun start => (h start).sublist ?_⟩
  rw [List.drop_append, List.take_append]
  exact List.sublist_append_left _ _

/-- The values of a window, and of a window with one value more, add up without rounding. -/
theorem addsExactly_drop (h : RollsExactly period values) {size : Nat} (hsize : size ≤ period + 1) :
    ∃ q, AddsExactly q (values.drop (values.length - size)) := by
  obtain ⟨q, h⟩ := h
  have hrun := h (values.length - size)
  rw [List.take_of_length_le (by rw [List.length_drop]; omega)] at hrun
  exact ⟨q, hrun⟩

/-- The sum of a window is a double. -/
theorem exists_exactly_windowSum (h : RollsExactly period values) {size : Nat}
    (hsize : size ≤ period + 1) : ∃ z, Exactly z (windowSum size (rationals values)) := by
  obtain ⟨q, hrun⟩ := h.addsExactly_drop hsize
  rw [windowSum_rationals]
  exact hrun.exists_exactly_sum

/-- Each value stands for its rational number. -/
theorem exactly (h : RollsExactly period values) {v : Float} (hv : v ∈ values) :
    Exactly v (toRat v) := by
  obtain ⟨q, h⟩ := h
  obtain ⟨n, hn, rfl⟩ := List.mem_iff_getElem.1 hv
  have hrun := h n
  rw [List.drop_eq_getElem_cons hn, List.take_succ_cons] at hrun
  exact hrun.exactly List.mem_cons_self

end RollsExactly

/-- Doubles that add up without rounding have the sum of their rational numbers. -/
theorem exactly_sum {q : ℤ} {values : List Float} (h : AddsExactly q values) :
    Exactly (sum values) (rationals values).sum := by
  induction values using List.reverseRecOn with
  | nil => exact exactly_zero
  | append_singleton rest v ih =>
    have hv := h.exactly (List.mem_append_right rest (List.mem_singleton_self v))
    cases rest with
    | nil => simpa [rationals, sum] using hv
    | cons x rest =>
      have hrest := ih (h.sublist (List.sublist_append_left _ _))
      have hsum : sum (x :: rest ++ [v]) = sum (x :: rest) + v := List.foldl_concat ..
      have hrationals : (rationals (x :: rest ++ [v])).sum =
          (rationals (x :: rest)).sum + toRat v := by
        rw [rationals_concat, List.sum_append, List.sum_singleton]
      have hdouble := h.exists_exactly_sum
      rw [hrationals] at hdouble
      rw [hsum, hrationals]
      exact hrest.add hv hdouble

/-- Where a row can be rolled over without rounding, the sum that is rolled along is that of the
window. -/
theorem rollInvariant_exactly (period : Nat) :
    RollInvariant period fun done total =>
      RollsExactly period done → Exactly total (windowSum period (rationals done)) where
  start _ := by
    rw [rationals, List.map_nil, windowSum_nil]
    exact exactly_zero
  fill done v total h htotal hexact := by
    have hlast : v ∈ done ++ [v] := List.mem_append_right done (List.mem_singleton_self v)
    have hsum : windowSum period (rationals (done ++ [v])) =
        windowSum period (rationals done) + toRat v := by
      rw [rationals_concat, windowSum_fill _ (by rwa [length_rationals])]
    have hdouble := hexact.exists_exactly_windowSum (Nat.le_succ period)
    rw [hsum] at hdouble ⊢
    exact (htotal hexact.of_append).add (hexact.exactly hlast) hdouble
  roll done v total h hfull htotal hexact := by
    -- The value that comes is added before the other leaves: that sum must be exact, too.
    have hlast : v ∈ done ++ [v] := List.mem_append_right done (List.mem_singleton_self v)
    have hmore : windowSum (period + 1) (rationals (done ++ [v])) =
        windowSum period (rationals done) + toRat v := by
      rw [rationals_concat, windowSum_succ]
    have hsum : windowSum period (rationals (done ++ [v])) =
        windowSum period (rationals done) + toRat v - toRat done[done.length - period] := by
      rw [rationals_concat, windowSum_roll _ (by rwa [length_rationals])
        (by rwa [length_rationals])]
      simp only [rationals, List.length_map, List.getElem_map]
    have hgrown := hexact.exists_exactly_windowSum (Nat.le_refl _)
    have hdouble := hexact.exists_exactly_windowSum (Nat.le_succ period)
    rw [hmore] at hgrown
    rw [hsum] at hdouble ⊢
    exact ((htotal hexact.of_append).add (hexact.exactly hlast) hgrown).sub
      (hexact.of_append.exactly (List.getElem_mem h)) hdouble

/-- Where a row can be rolled over without rounding, the rolling mean at its end is its mean. -/
theorem getElem?_rolling_of_rollsExactly {period n : Nat} {values : List Float}
    (hn : n < values.length) (hpos : 0 < period) (hfull : period ≤ n + 1)
    (hexact : RollsExactly period (values.take (n + 1))) :
    (rolling period values)[n]?.join = mean? period (values.take (n + 1)) := by
  obtain ⟨total, htotal, hvalue⟩ := (rollInvariant_exactly period).getElem?_rolling hpos hn hfull
  have hlength : (values.take (n + 1)).length = n + 1 := by
    rw [List.length_take]
    omega
  obtain ⟨q, hwindow⟩ := hexact.addsExactly_drop (Nat.le_succ period)
  have hsum := exactly_sum hwindow
  rw [← windowSum_rationals] at hsum
  rw [hvalue, mean?, if_neg (by omega), (htotal hexact).unique hsum]

/-! ### What is not finite -/

/-- Whatever has been seen that is not finite taints the sum, and leaves no number behind when it is
taken away. -/
theorem rollInvariant_isTaintedBy (period : Nat) :
    RollInvariant period fun done total =>
      ∀ (j : Nat) (h : j < done.length), Scalar.isFinite done[j] = false →
        IsTaintedBy done[j] total ∧ (j + period < done.length → total.isNaN = true) where
  start j h := absurd h (Nat.not_lt_zero j)
  fill done v total h htotal j hj hfinite := by
    have hlength : (done ++ [v]).length = done.length + 1 := List.length_append
    rcases Nat.lt_succ_iff_lt_or_eq.1 (hlength ▸ hj) with hseen | rfl
    · rw [List.getElem_append_left hseen] at hfinite ⊢
      exact ⟨(htotal j hseen hfinite).1.add hfinite v, fun hleft => by omega⟩
    · rw [List.getElem_concat_length rfl] at hfinite ⊢
      exact ⟨.of_add hfinite total, fun hleft => by omega⟩
  roll done v total h hfull htotal j hj hfinite := by
    have hlength : (done ++ [v]).length = done.length + 1 := List.length_append
    rcases Nat.lt_succ_iff_lt_or_eq.1 (hlength ▸ hj) with hseen | rfl
    · rw [List.getElem_append_left hseen] at hfinite ⊢
      obtain ⟨htainted, hgone⟩ := htotal j hseen hfinite
      have hadded := htainted.add hfinite v
      refine ⟨hadded.sub hfinite _, fun hleft => ?_⟩
      -- The sum stops being a number when what tainted it is taken away, and is never one again.
      by_cases hnow : j = done.length - period
      · subst hnow
        exact hadded.isNaN_sub hfinite
      · have hnone := hgone (by omega)
        have hself : IsTaintedBy total total := .inr rfl
        have htotal := htainted.not_isFinite hfinite
        exact ((hself.add htotal v).sub htotal _).isNaN hnone
    · rw [List.getElem_concat_length rfl] at hfinite ⊢
      exact ⟨(IsTaintedBy.of_add hfinite total).sub hfinite _, fun hleft => by omega⟩

/-- From a value on that is not finite, no rolling mean is finite, and none is a number from where
that value has left, or if it is none itself. -/
theorem getElem?_rolling_of_not_isFinite {period n : Nat} {values : List Float}
    (hn : n < values.length) (hpos : 0 < period) (hfull : period ≤ n + 1) {j : Nat} (hj : j ≤ n)
    (hfinite : Scalar.isFinite values[j] = false) :
    ∃ mean, (rolling period values)[n]?.join = some mean ∧ Scalar.isFinite mean = false ∧
      (values[j].isNaN = true ∨ j + period ≤ n → mean.isNaN = true) := by
  obtain ⟨total, htotal, hvalue⟩ :=
    (rollInvariant_isTaintedBy period).getElem?_rolling hpos hn hfull
  have hlength : (values.take (n + 1)).length = n + 1 := by
    rw [List.length_take]
    omega
  obtain ⟨htainted, hgone⟩ := htotal j (by omega) (by rwa [List.getElem_take])
  rw [List.getElem_take] at htainted
  obtain ⟨hquotient, hnumber⟩ :=
    div_not_isFinite (htainted.not_isFinite hfinite) (Scalar.ofCount period)
  refine ⟨_, hvalue, hquotient, fun hwhere => hnumber ?_⟩
  rcases hwhere with hnan | hleft
  · exact htainted.isNaN hnan
  · exact hgone (by omega)

end Average

namespace Indicator

variable {α : Type} [Scalar α] {i : Indicator}

/-- What does not carry its first values along is a plain mean, of closes or of volumes. -/
theorem kind_of_not_isSmoothed (hkind : i.kind.isSmoothed = false) :
    i.kind = .sma ∨ i.kind = .avgVolume := by
  cases hi : i.kind with
  | sma => exact .inl rfl
  | avgVolume => exact .inr rfl
  | rsi | ema =>
    rw [hi] at hkind
    cases hkind

/-- A plain mean has the rolling means of its row for values. -/
theorem values_of_not_isSmoothed (hkind : i.kind.isSmoothed = false) (closes volumes : List α) :
    i.values closes volumes = Average.rolling i.period (i.row closes volumes) := by
  rcases kind_of_not_isSmoothed hkind with hi | hi <;> simp only [values, row, hi]

/-- A plain mean has the mean of its row for a value. -/
theorem value?_of_not_isSmoothed (hkind : i.kind.isSmoothed = false) (closes volumes : List α) :
    i.value? closes volumes = Average.mean? i.period (i.row closes volumes) := by
  rcases kind_of_not_isSmoothed hkind with hi | hi <;> simp only [value?, row, hi]

/-- The field that an indicator reads of a bar. -/
def field {β : Type} (i : Indicator) (b : Bar β) : β :=
  match i.kind with
  | .rsi | .sma | .ema => b.close
  | .avgVolume => b.volume

/-- The row that an indicator reads, of some bars. -/
theorem row_map {β : Type} (i : Indicator) (bars : List (Bar β)) :
    i.row (bars.map Bar.close) (bars.map Bar.volume) = bars.map i.field := by
  unfold row field
  cases i.kind <;> rfl

/-- The value of an indicator over some bars. -/
def over? (i : Indicator) (bars : List (Bar α)) : Option α :=
  i.value? (bars.map Bar.close) (bars.map Bar.volume)

/-- A plain mean over some bars is the mean of one of their fields. -/
theorem over?_of_not_isSmoothed (hkind : i.kind.isSmoothed = false) (bars : List (Bar α)) :
    i.over? bars = Average.mean? i.period (bars.map i.field) := by
  rw [over?, value?_of_not_isSmoothed hkind, row_map]

/-- A point of a plain mean is the rolling mean of one of the fields of the bars. -/
theorem point_of_not_isSmoothed (hkind : i.kind.isSmoothed = false) {bars : List (Bar α)} {n : Nat}
    (hn : n < bars.length) :
    (i.history bars)[n]?.bind Point.value =
      (Average.rolling i.period (bars.map i.field))[n]?.join := by
  rw [getElem?_history i hn, Option.bind_some, values_of_not_isSmoothed hkind, row_map]

/-- On doubles, a plain mean over the bars up to a place is the mean over the last window of them.
The point there is that mean as long as no sum of a window with one value more is rounded up to
there. But a value that is not finite is never forgotten: from its bar on the point is not finite,
and it is no number after the value has left the window, or if the value is none itself. -/
theorem residue_of_mean {i : Indicator} (hkind : i.kind.isSmoothed = false) (hpos : 1 ≤ i.period)
    {bars : List (Bar Float)} {n : Nat} (hn : n < bars.length) (hfull : i.period ≤ n + 1) :
    let seen := bars.take (n + 1)
    let point := (i.history bars)[n]?.bind Point.value
    i.over? seen = i.over? (seen.drop (n + 1 - i.period)) ∧
      (Average.RollsExactly i.period (seen.map i.field) → point = i.over? seen) ∧
      ∀ (j : Nat) (hj : j ≤ n), Scalar.isFinite (i.field bars[j]) = false →
        ∃ mean, point = some mean ∧ Scalar.isFinite mean = false ∧
          ((i.field bars[j]).isNaN = true ∨ j + i.period ≤ n → mean.isNaN = true) := by
  intro seen point
  have hlength : n < (bars.map i.field).length := by rwa [List.length_map]
  have hpoint : point = _ := point_of_not_isSmoothed hkind hn
  have hseen : seen.length = n + 1 := by
    rw [List.length_take]
    omega
  refine ⟨?_, fun hexact => ?_, fun j hj hfinite => ?_⟩
  · have hdrop := @Average.mean?_drop _ _ i.period _ (Nat.le_refl _) (seen.map i.field)
    rw [List.length_map, hseen, ← List.map_drop] at hdrop
    rw [over?_of_not_isSmoothed hkind, over?_of_not_isSmoothed hkind, hdrop]
  · rw [List.map_take] at hexact
    rw [hpoint, over?_of_not_isSmoothed hkind, List.map_take]
    exact Average.getElem?_rolling_of_rollsExactly hlength hpos hfull hexact
  · have hvalue : (bars.map i.field)[j] = i.field bars[j] := List.getElem_map ..
    rw [← hvalue] at hfinite ⊢
    rw [hpoint]
    exact Average.getElem?_rolling_of_not_isFinite hlength hpos hfull hj hfinite

/-- Three closes that add up without rounding, and two of which the first is no number. -/
theorem residue_of_mean_exact_and_undefined :
    let bar (hour : Fin 24) (close : Float) : Bar Float :=
      ⟨⟨2024, 1, 1, hour, 0, 0, by decide, by revert hour; decide⟩, close, close, close, close, 1⟩
    let exact := [bar 0 3, bar 1 1.5, bar 2 0.5]
    let undefined := [bar 0 (0 / 0), bar 1 1]
    let pair : Indicator := ⟨.sma, 2⟩
    let single : Indicator := ⟨.sma, 1⟩
    pair.kind.isSmoothed = false ∧ Average.RollsExactly 2 (exact.map pair.field) ∧
      (pair.history exact)[2]?.bind Point.value = pair.over? exact ∧
      single.kind.isSmoothed = false ∧ Scalar.isFinite (single.field (bar 0 (0 / 0))) = false ∧
      ∃ mean, (single.history undefined)[1]?.bind Point.value = some mean ∧ mean.isNaN = true := by
  intro bar exact undefined pair single
  have hadds : AddsExactly (-1) (exact.map pair.field) := by
    have hthree : toRat 3 = 3 := by decide +kernel
    have hmiddle : toRat 1.5 = 3 / 2 := by decide +kernel
    have hhalf : toRat 0.5 = 1 / 2 := by decide +kernel
    change AddsExactly (-1) [3, 1.5, 0.5]
    refine ⟨by decide, fun v hv => ?_, ?_⟩
    · rw [AddSubgroup.mem_zmultiples_iff]
      rcases List.mem_cons.1 hv with rfl | hv
      · exact ⟨⟨by decide +kernel, by decide +kernel⟩, 6, by rw [hthree]; norm_num⟩
      rcases List.mem_cons.1 hv with rfl | hv
      · exact ⟨⟨by decide +kernel, by decide +kernel⟩, 3, by rw [hmiddle]; norm_num⟩
      · rw [List.mem_singleton.1 hv]
        exact ⟨⟨by decide +kernel, by decide +kernel⟩, 1, by rw [hhalf]; norm_num⟩
    · simp only [rationals, List.map_cons, List.map_nil, hthree, hmiddle, hhalf]
      norm_num
  have hrolls := Average.RollsExactly.of_addsExactly hadds 2
  obtain ⟨-, hpoint, -⟩ := @residue_of_mean pair rfl (by decide) exact 2 (by decide) (by decide)
  obtain ⟨-, -, hkept⟩ :=
    @residue_of_mean single rfl (by decide) undefined 1 (by decide) (by decide)
  have hfinite : Scalar.isFinite (single.field (bar 0 (0 / 0))) = false := by decide +kernel
  obtain ⟨mean, hmean, -, hnumber⟩ := hkept 0 (by decide) hfinite
  exact ⟨rfl, hrolls, hpoint hrolls, rfl, hfinite, mean, hmean, hnumber (.inr (by decide))⟩

/-- After a close of `1e16`, a mean over one bar loses the close of one; after a close that is no
number, it is none. The means of the newest bar alone are one. -/
theorem residue_of_mean_jump :
    let bar (hour : Fin 24) (close : Float) : Bar Float :=
      ⟨⟨2024, 1, 1, hour, 0, 0, by decide, by revert hour; decide⟩, close, close, close, close, 1⟩
    let jump := [bar 0 1e16, bar 1 1]
    let undefined := [bar 0 (0 / 0), bar 1 1]
    let i : Indicator := ⟨.sma, 1⟩
    ((i.history jump)[1]?.bind Point.value).map Float.toBits = some (0 : Float).toBits ∧
      (i.over? jump).map Float.toBits = some (1 : Float).toBits ∧
      ((i.history undefined)[1]?.bind Point.value).map Float.isNaN = some true ∧
      (i.over? undefined).map Float.toBits = some (1 : Float).toBits := by
  decide +kernel

end Indicator

end TradeRules
