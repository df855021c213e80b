import TradeRules.Proofs.Indicator.WarmUp
import TradeRules.Proofs.Number.Rational
import TradeRules.Proofs.Rule.Window

/-!
# Histories and newest values

The history of an indicator can be read off one bar at a time: computing the indicator afresh of the
bars up to a place gives the point there (`Indicator.history_eq_pointwise`). The smoothed kinds go
through the bars in order and never look ahead, so that the history of a beginning is the
beginning of the history, whatever the arithmetic. A rolling mean keeps a sum instead, which is that
of the window as long as nothing is rounded; whether it has a value does not depend on rounding.
-/

namespace TradeRules

variable {α : Type} [Scalar α]

/-- The last entry of the beginning up to a place is the entry at that place. -/
theorem getLast?_take_succ {β : Type} {xs : List β} {n : Nat} (h : n < xs.length) :
    (xs.take (n + 1)).getLast? = xs[n]? := by
  rw [List.getLast?_take, if_neg (Nat.succ_ne_zero n), Nat.add_sub_cancel,
    List.getElem?_eq_getElem h, Option.some_or]

/-- Absent values from the start are absent in a shorter row too. -/
theorem map_absent_take {β γ : Type} {xs : List β} {n k : Nat} (hn : n ≤ k) (hk : k ≤ xs.length)
    (ys : List (Option γ)) :
    ((xs.take n).map fun _ => none) = (List.replicate k none ++ ys).take n := by
  have hlength : n ≤ (List.replicate k (none : Option γ)).length := by
    rw [List.length_replicate]
    exact hn
  rw [List.take_append_of_le_length hlength, List.map_const', List.length_take, List.take_replicate,
    Nat.min_eq_left hn, Nat.min_eq_left (Nat.le_trans hn hk)]

/-- The beginning of a row that starts with absent values and goes beyond them. -/
theorem take_padded {β γ : Type} (f : β → Option γ) (ys : List β) {n k : Nat} (h : k ≤ n) :
    (List.replicate k none ++ ys.map f).take n =
      List.replicate k none ++ (ys.take (n - k)).map f := by
  rw [List.take_append, List.take_replicate, List.length_replicate, Nat.min_eq_right h,
    List.map_take]

namespace Average

/-- The exponential means at later values do not read what comes after them. -/
theorem smoothFrom_take (k previous : α) (n : Nat) (values : List α) :
    smoothFrom k previous (values.take n) = (smoothFrom k previous values).take n := by
  induction values generalizing previous n with
  | nil => simp only [List.take_nil, smoothFrom]
  | cons v rest ih =>
    cases n with
    | zero => rfl
    | succ n => simp only [List.take_succ_cons, smoothFrom, ih]

/-- The exponential means of the beginning of a row are the beginning of its means. -/
theorem exponential_take (period n : Nat) (values : List α) :
    exponential period (values.take n) = (exponential period values).take n := by
  unfold exponential
  dsimp only
  rw [List.length_take]
  by_cases hshort : period = 0 ∨ values.length < period
  · rw [if_pos (by omega), if_pos hshort, List.map_take]
  · rw [if_neg hshort]
    by_cases hn : n < period
    · rw [if_pos (by omega), map_absent_take (k := period - 1) (by omega) (by omega)]
    · have hseed : seed period (values.take n) = (seed period values : α) := by
        rw [seed, seed, List.take_take, Nat.min_eq_left (by omega)]
      have hlater : n - (period - 1) = n - period + 1 := by omega
      rw [if_neg (by omega), take_padded _ _ (by omega), hseed, hlater, List.take_succ_cons,
        List.drop_take, smoothFrom_take]

/-- While the window is not full, a value is added. -/
theorem rollFrom_filling {period seen : Nat} (h : seen < period) (total v : α)
    (rest leaving : List α) :
    rollFrom period seen total (v :: rest) leaving =
      (if seen + 1 = period then some ((total + v) / Scalar.ofCount period) else none) ::
        rollFrom period (seen + 1) (total + v) rest leaving := by
  rw [rollFrom.eq_def]
  exact if_pos h

/-- When the window is full, a value is added and one leaves. -/
theorem rollFrom_full {period seen : Nat} (h : period ≤ seen) (total v old : α)
    (rest leaving : List α) :
    rollFrom period seen total (v :: rest) (old :: leaving) =
      some ((total + v - old) / Scalar.ofCount period) ::
        rollFrom period (seen + 1) (total + v - old) rest leaving := by
  rw [rollFrom.eq_def]
  exact if_neg (Nat.not_lt_of_le h)

/-- A rolling mean has a value where the window is full, as long as there are values left to leave
it. -/
theorem isSome_rollFrom_iff {period n : Nat} {values leaving : List α}
    (hleaving : values.length ≤ leaving.length) (hn : n < values.length) (seen : Nat) (total : α) :
    (rollFrom period seen total values leaving)[n]?.join.isSome ↔ period ≤ seen + n + 1 := by
  induction values generalizing n seen total leaving with
  | nil => cases hn
  | cons v rest ih =>
    rw [List.length_cons] at hleaving hn
    by_cases hseen : seen < period
    · rw [rollFrom_filling hseen]
      cases n with
      | zero =>
        rw [List.getElem?_cons_zero, Option.join_some]
        split
        · exact iff_of_true rfl (by omega)
        · exact iff_of_false Bool.false_ne_true (by omega)
      | succ n =>
        rw [List.getElem?_cons_succ, ih (by omega) (by omega)]
        omega
    · cases leaving with
      | nil => cases hleaving
      | cons old leaving =>
        rw [List.length_cons] at hleaving
        rw [rollFrom_full (by omega)]
        cases n with
        | zero => exact iff_of_true rfl (by omega)
        | succ n =>
          rw [List.getElem?_cons_succ, ih (by omega) (by omega)]
          omega

/-- There is a rolling mean at each place from which a whole window reaches back. -/
theorem isSome_rolling_iff {period n : Nat} {values : List α} (hn : n < values.length) :
    (rolling period values)[n]?.join.isSome ↔ 0 < period ∧ period ≤ n + 1 := by
  unfold rolling
  by_cases hzero : period = 0
  · rw [if_pos hzero, List.getElem?_map, List.getElem?_eq_getElem hn]
    exact iff_of_false Bool.false_ne_true (by omega)
  · rw [if_neg hzero, isSome_rollFrom_iff (Nat.le_refl _) hn]
    omega

/-- What holds of the sum that is rolled along, given the values that have been seen. -/
structure RollInvariant (period : Nat) (Holds : List α → α → Prop) : Prop where
  /-- It holds of zero where nothing has been seen. -/
  start : Holds [] Scalar.zero
  /-- It is kept by a value that is added while the window fills up. -/
  fill (done : List α) (v total : α) : done.length < period → Holds done total →
    Holds (done ++ [v]) (total + v)
  /-- It is kept by a value that is added when the window is full, and another leaves. -/
  roll (done : List α) (v total : α) (h : done.length - period < done.length) :
    period ≤ done.length → Holds done total →
    Holds (done ++ [v]) (total + v - done[done.length - period])

/-- Where the window is full, the rolling mean divides a sum of which the invariant holds. When
`done` has been seen, the last values of `done` are the next to leave. -/
theorem RollInvariant.getElem?_rollFrom {period : Nat} {Holds : List α → α → Prop}
    (hinv : RollInvariant period Holds) (hpos : 0 < period) {n : Nat} {done rest : List α}
    {total : α} (hn : n < rest.length) (hfull : period ≤ done.length + n + 1)
    (htotal : Holds done total) :
    ∃ later, Holds (done ++ rest.take (n + 1)) later ∧
      (rollFrom period done.length total rest
        ((done ++ rest).drop (done.length - period)))[n]?.join =
        some (later / Scalar.ofCount period) := by
  induction rest generalizing n done total with
  | nil => cases hn
  | cons v rest ih =>
    have hlength : (done ++ [v]).length = done.length + 1 := List.length_append
    have hrow : done ++ v :: rest = done ++ [v] ++ rest := List.append_cons ..
    by_cases hseen : done.length < period
    · have hstart : done.length - period = (done ++ [v]).length - period := by omega
      have hnext := hinv.fill done v total hseen htotal
      rw [rollFrom_filling hseen]
      cases n with
      | zero =>
        refine ⟨total + v, hnext, ?_⟩
        rw [List.getElem?_cons_zero, Option.join_some, if_pos (by omega)]
      | succ n =>
        rw [List.getElem?_cons_succ, hstart, hrow, List.take_succ_cons, List.append_cons done v,
          ← hlength]
        exact ih (Nat.lt_of_succ_lt_succ hn) (by omega) hnext
    · have hstart : done.length - period < done.length := by omega
      have hnext := hinv.roll done v total hstart (Nat.le_of_not_lt hseen) htotal
      have hleaving : (done ++ v :: rest).drop (done.length - period) =
          done[done.length - period] ::
            (done ++ v :: rest).drop ((done ++ [v]).length - period) := by
        rw [hlength, Nat.sub_add_comm (by omega), List.drop_eq_getElem_cons (by simp; omega),
          List.getElem_append_left hstart]
      rw [hleaving, rollFrom_full (by omega)]
      cases n with
      | zero => exact ⟨_, hnext, rfl⟩
      | succ n =>
        rw [List.getElem?_cons_succ, hrow, List.take_succ_cons, List.append_cons done v, ← hlength]
        exact ih (Nat.lt_of_succ_lt_succ hn) (by omega) hnext

/-- Where a whole window reaches back from a place, the rolling mean there divides a sum of which
the invariant holds. -/
theorem RollInvariant.getElem?_rolling {period : Nat} {Holds : List α → α → Prop}
    (hinv : RollInvariant period Holds) (hpos : 0 < period) {n : Nat} {values : List α}
    (hn : n < values.length) (hfull : period ≤ n + 1) :
    ∃ total, Holds (values.take (n + 1)) total ∧
      (rolling period values)[n]?.join = some (total / Scalar.ofCount period) := by
  have hroll := hinv.getElem?_rollFrom hpos hn (by rw [List.length_nil]; omega) hinv.start
  rw [rolling, if_neg (Nat.ne_of_gt hpos)]
  simpa only [List.nil_append, List.length_nil, Nat.zero_sub, List.drop_zero] using hroll

/-- Rationals may be added from either end. -/
theorem sum_rat (values : List ℚ) : sum values = values.sum := by
  have hfoldl (rest : List ℚ) (total : ℚ) : rest.foldl (· + ·) total = total + rest.sum := by
    induction rest generalizing total with
    | nil => exact (add_zero total).symm
    | cons v rest ih => rw [List.foldl_cons, ih, List.sum_cons, add_assoc]
  cases values with
  | nil => exact Scalar.zero_rat
  | cons v rest => exact hfoldl rest v

/-- The sum of the last values of a row, as many as the window holds. -/
def windowSum (period : Nat) (values : List ℚ) : ℚ :=
  (values.drop (values.length - period)).sum

/-- The mean of the last rationals of a row. -/
theorem mean?_rat {period : Nat} {values : List ℚ} (hpos : 0 < period)
    (h : period ≤ values.length) :
    mean? period values = some (windowSum period values / Scalar.ofCount period) := by
  rw [mean?, if_neg (by omega), sum_rat, windowSum]

@[simp] theorem windowSum_nil (period : Nat) : windowSum period [] = 0 := by
  rw [windowSum, List.drop_nil, List.sum_nil]

/-- With the value that comes, the window holds one value more. -/
theorem windowSum_succ (period : Nat) (done : List ℚ) (v : ℚ) :
    windowSum (period + 1) (done ++ [v]) = windowSum period done + v := by
  rw [windowSum, windowSum, List.length_append, List.length_singleton, Nat.add_sub_add_right,
    List.drop_append_of_le_length (Nat.sub_le _ _), List.sum_append, List.sum_singleton]

/-- While the window fills up, its sum grows by the value that comes. -/
theorem windowSum_fill {period : Nat} {done : List ℚ} (v : ℚ) (h : done.length < period) :
    windowSum period (done ++ [v]) = windowSum period done + v := by
  have hlength : (done ++ [v]).length = done.length + 1 := List.length_append
  rw [← windowSum_succ, windowSum, windowSum, Nat.sub_eq_zero_of_le (by omega),
    Nat.sub_eq_zero_of_le (by omega)]

/-- When the window is full, its sum changes by the value that comes and the value that leaves. -/
theorem windowSum_roll {period : Nat} {done : List ℚ} (v : ℚ)
    (h : done.length - period < done.length) (hfull : period ≤ done.length) :
    windowSum period (done ++ [v]) = windowSum period done + v - done[done.length - period] := by
  have hlength : (done ++ [v]).length = done.length + 1 := List.length_append
  have hlonger : done.length - period < (done ++ [v]).length := by omega
  have hleaving : (done ++ [v])[done.length - period] = done[done.length - period] :=
    List.getElem_append_left h
  rw [← windowSum_succ, windowSum, windowSum, hlength, Nat.add_sub_add_right,
    Nat.sub_add_comm hfull, ← hleaving, eq_sub_iff_add_eq, add_comm, ← List.sum_cons,
    ← List.drop_eq_getElem_cons hlonger]

/-- Where nothing is rounded, the sum that is rolled along is that of the window. -/
theorem rollInvariant_windowSum (period : Nat) :
    RollInvariant period fun done total => total = windowSum period done where
  start := by rw [windowSum_nil, Scalar.zero_rat]
  fill done v total h htotal := by rw [htotal, windowSum_fill v h]
  roll done v total h hfull htotal := by rw [htotal, windowSum_roll v h hfull]

/-- Where nothing is rounded, the rolling mean at a place is the mean at the end of the row up to
there. -/
theorem getElem?_rolling_rat {period n : Nat} {values : List ℚ} (hn : n < values.length) :
    (rolling period values)[n]?.join = mean? period (values.take (n + 1)) := by
  by_cases h : 0 < period ∧ period ≤ n + 1
  · obtain ⟨total, rfl, hvalue⟩ :=
      (rollInvariant_windowSum period).getElem?_rolling h.1 hn h.2
    rw [hvalue, mean?_rat h.1 (by rw [List.length_take]; omega)]
  · have hnone : (rolling period values)[n]?.join = none := by
      rw [← Option.not_isSome_iff_eq_none, isSome_rolling_iff hn]
      exact h
    rw [hnone, mean?, if_pos (by rw [List.length_take]; omega)]

end Average

namespace Strength

/-- The changes within the beginning of a row are the beginning of its changes. -/
theorem changes_take (n : Nat) (closes : List α) :
    changes (closes.take (n + 1)) = (changes closes).take n := by
  induction closes generalizing n with
  | nil => simp only [List.take_nil, changes]
  | cons x rest ih =>
    cases n with
    | zero => cases rest <;> rfl
    | succ n =>
      cases rest with
      | nil => rfl
      | cons y rest =>
        have hrest := ih n
        rw [List.take_succ_cons] at hrest
        simp only [List.take_succ_cons, changes, hrest]

/-- The averages that follow some changes do not read what comes after them. -/
theorem Averages.follow_take (period n : Nat) (a : Averages α) (moves : List α) :
    a.follow period (moves.take n) = (a.follow period moves).take (n + 1) := by
  induction moves generalizing a n with
  | nil => simp only [List.take_nil, follow, List.take_succ_cons]
  | cons m rest ih =>
    cases n with
    | zero => rfl
    | succ n => simp only [List.take_succ_cons, follow, ih]

/-- The index over the beginning of a row is the beginning of the index over the row. -/
theorem history_take (period n : Nat) (closes : List α) :
    history period (closes.take n) = (history period closes).take n := by
  unfold history
  dsimp only
  rw [List.length_take]
  by_cases hshort : period = 0 ∨ closes.length ≤ period
  · rw [if_pos (by omega), if_pos hshort, List.map_take]
  · rw [if_neg hshort]
    by_cases hn : n ≤ period
    · rw [if_pos (by omega), map_absent_take hn (by omega)]
    · obtain ⟨k, rfl⟩ : ∃ k, n = k + 1 := ⟨n - 1, by omega⟩
      have hfirst : Averages.first period ((changes closes).take k) =
          (Averages.first period (changes closes) : Averages α) := by
        rw [Averages.first, Averages.first, List.take_take, Nat.min_eq_left (by omega)]
      have hlater : k + 1 - period = k - period + 1 := by omega
      rw [if_neg (by omega), take_padded _ _ (by omega), changes_take, hfirst, hlater,
        List.drop_take, Averages.follow_take]

end Strength

namespace Indicator

/-- One point per bar, each computed afresh of the bars up to it. -/
def pointwise (i : Indicator) (bars : List (Bar α)) : List (Point α) :=
  bars.mapIdx fun n b =>
    ⟨b.time, i.value? ((bars.take (n + 1)).map Bar.close) ((bars.take (n + 1)).map Bar.volume)⟩

/-- A smoothed indicator has at each place the value of the row up to there. -/
theorem getElem?_values_of_isSmoothed {i : Indicator} (hkind : i.kind.isSmoothed = true) {n : Nat}
    {closes volumes : List α} (hn : n < closes.length) :
    (i.values closes volumes)[n]?.join = i.value? (closes.take (n + 1)) (volumes.take (n + 1)) := by
  unfold values value?
  cases hi : i.kind with
  | rsi =>
    have hlength : n < (Strength.history i.period closes).length := by
      rw [Strength.length_history]
      exact hn
    simp only [Strength.history_take, getLast?_take_succ hlength]
  | ema =>
    have hlength : n < (Average.exponential i.period closes).length := by
      rw [Average.length_exponential]
      exact hn
    simp only [Average.exponential_take, getLast?_take_succ hlength]
  | sma | avgVolume =>
    rw [hi] at hkind
    cases hkind

/-- Where nothing is rounded, every indicator has at each place the value of the row up to there. -/
theorem getElem?_values_rat (i : Indicator) {n : Nat} {closes volumes : List ℚ}
    (hn : n < closes.length) (hlength : volumes.length = closes.length) :
    (i.values closes volumes)[n]?.join = i.value? (closes.take (n + 1)) (volumes.take (n + 1)) := by
  by_cases hkind : i.kind.isSmoothed = true
  · exact getElem?_values_of_isSmoothed hkind hn
  · unfold values value?
    cases hi : i.kind with
    | sma => exact Average.getElem?_rolling_rat hn
    | avgVolume => exact Average.getElem?_rolling_rat (hlength ▸ hn)
    | rsi | ema =>
      rw [hi] at hkind
      exact absurd rfl hkind

/-- Whatever is rounded, an indicator has a value at a place where it has one for the row up to
there. -/
theorem isSome_getElem?_values (i : Indicator) {n : Nat} {closes volumes : List α}
    (hn : n < closes.length) (hlength : volumes.length = closes.length) :
    (i.values closes volumes)[n]?.join.isSome =
      (i.value? (closes.take (n + 1)) (volumes.take (n + 1))).isSome := by
  have hrolling {values : List α} (hn : n < values.length) :
      (Average.rolling i.period values)[n]?.join.isSome =
        (Average.mean? i.period (values.take (n + 1))).isSome := by
    rw [Bool.eq_iff_iff, Average.isSome_rolling_iff hn, Average.isSome_mean?_iff, List.length_take]
    omega
  by_cases hkind : i.kind.isSmoothed = true
  · rw [getElem?_values_of_isSmoothed hkind hn]
  · unfold values value?
    cases hi : i.kind with
    | sma => exact hrolling hn
    | avgVolume => exact hrolling (hlength ▸ hn)
    | rsi | ema =>
      rw [hi] at hkind
      exact absurd rfl hkind

/-- The point at a bar holds the moment of the bar and the value there. -/
theorem getElem?_history (i : Indicator) {bars : List (Bar α)} {n : Nat} (hn : n < bars.length) :
    (i.history bars)[n]? =
      some ⟨bars[n].time, (i.values (bars.map Bar.close) (bars.map Bar.volume))[n]?.join⟩ := by
  have hlength := i.length_history bars
  rw [history, List.length_zipWith] at hlength
  have hvalue := List.getElem?_eq_getElem (Nat.lt_of_lt_of_le hn (min_eq_left_iff.1 hlength))
  rw [history, List.getElem?_zipWith, List.getElem?_eq_getElem hn, hvalue]
  rfl

/-- A history has the moments of its bars. -/
theorem map_time_history (i : Indicator) (bars : List (Bar α)) :
    (i.history bars).map Point.time = bars.map Bar.time := by
  refine List.ext_getElem (by simp [length_history]) fun n hpoint hbar => ?_
  rw [List.length_map] at hpoint hbar
  have hn := getElem?_history i hbar
  rw [List.getElem?_eq_getElem hpoint, Option.some.injEq] at hn
  rw [List.getElem_map, List.getElem_map, hn]

/-- A history and points that are computed afresh look the same where they do at each place. -/
theorem map_history_eq {β : Type} (f : Point α → β) (i : Indicator) (bars : List (Bar α))
    (h : ∀ n time, n < (bars.map Bar.close).length →
      f ⟨time, (i.values (bars.map Bar.close) (bars.map Bar.volume))[n]?.join⟩ =
        f ⟨time, i.value? ((bars.map Bar.close).take (n + 1))
          ((bars.map Bar.volume).take (n + 1))⟩) :
    (i.history bars).map f = (i.pointwise bars).map f := by
  refine List.ext_getElem? fun n => ?_
  rw [List.getElem?_map, List.getElem?_map, pointwise, List.getElem?_mapIdx]
  by_cases hn : n < bars.length
  · rw [getElem?_history i hn, List.getElem?_eq_getElem hn, Option.map_some, Option.map_some,
      Option.map_some, List.map_take, List.map_take]
    exact congrArg some (h n _ (by rwa [List.length_map]))
  · have hnone : (i.history bars)[n]? = none := by
      rw [List.getElem?_eq_none_iff, length_history]
      exact Nat.le_of_not_lt hn
    rw [hnone, List.getElem?_eq_none (Nat.le_of_not_lt hn)]
    rfl

/-- A history is computed afresh at every bar where the values at all places are. -/
theorem history_eq_of_values {i : Indicator} {bars : List (Bar α)}
    (h : ∀ n, n < (bars.map Bar.close).length →
      (i.values (bars.map Bar.close) (bars.map Bar.volume))[n]?.join =
        i.value? ((bars.map Bar.close).take (n + 1)) ((bars.map Bar.volume).take (n + 1))) :
    i.history bars = i.pointwise bars := by
  have hmap := map_history_eq id i bars fun n time hn => congrArg (Point.mk time) (h n hn)
  rwa [List.map_id, List.map_id] at hmap

/-- A history has one point per bar, at the moment of the bar. In any arithmetic, a point has a value
exactly where the indicator has one for the bars up to there, and of the smoothed kinds it is that
value; where nothing is rounded, it is that value of every kind. -/
theorem history_eq_pointwise (i : Indicator) :
    (∀ (α : Type) [Scalar α] (bars : List (Bar α)),
      (i.history bars).map Point.time = bars.map Bar.time ∧
      ((i.history bars).map fun p => p.value.isSome) =
        ((i.pointwise bars).map fun p => p.value.isSome) ∧
      (i.kind.isSmoothed = true → i.history bars = i.pointwise bars)) ∧
    ∀ bars : List (Bar ℚ), i.history bars = i.pointwise bars := by
  have hlength {α : Type} (bars : List (Bar α)) :
      (bars.map Bar.volume).length = (bars.map Bar.close).length := by
    rw [List.length_map, List.length_map]
  refine ⟨fun α _ bars => ⟨i.map_time_history bars, ?_, fun hkind => ?_⟩, fun bars => ?_⟩
  · exact map_history_eq _ i bars fun n _ hn => i.isSome_getElem?_values hn (hlength bars)
  · exact history_eq_of_values fun n hn => getElem?_values_of_isSmoothed hkind hn
  · exact history_eq_of_values fun n hn => i.getElem?_values_rat hn (hlength bars)

/-- On doubles, the exponential mean over two bars is the same in both forms after a jump. -/
theorem history_eq_pointwise_ema :
    let bar (hour : Fin 24) (close : Float) : Bar Float :=
      ⟨⟨2024, 1, 1, hour, 0, 0, by decide, by revert hour; decide⟩, close, close, close, close, 1000⟩
    let bars := [bar 0 0.1, bar 1 1000, bar 2 0.3]
    let i : Indicator := ⟨.ema, 2⟩
    i.kind.isSmoothed = true ∧ i.history bars = i.pointwise bars ∧
      ((i.history bars).map fun p => p.value.isSome) = [false, true, true] := by
  intro bar bars i
  exact ⟨rfl, ((history_eq_pointwise i).1 Float bars).2.2 rfl, by decide +kernel⟩

end Indicator

end TradeRules
