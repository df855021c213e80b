import TradeRules.Proofs.Indicator.Pointwise

/-!
# The relative strength of exact closes

Where nothing is rounded, the index is the share of the average rise in the sum of the average rise
and the average fall, out of a hundred, and fifty where nothing moved. Both averages are at least
zero and scale with the changes; with a period above one they never forget: an amount above zero
keeps them above zero for good. Turning the closes upside down exchanges the two averages.
-/

namespace TradeRules

namespace Strength

/-! ### Wilder's averages -/

/-- An average that is moved by one part in `period` towards a new amount. -/
def moved (period : Nat) (average amount : ℚ) : ℚ := (average * (period - 1) + amount) / period

/-- Wilder's average of a row of amounts: the plain mean of the first `period`, moved towards each
later amount. -/
def wilder (period : Nat) (amounts : List ℚ) : ℚ :=
  (amounts.drop period).foldl (moved period) ((amounts.take period).sum / period)

section Moved

variable {period : Nat} {average amount : ℚ}

theorem moved_nonneg (hperiod : 1 ≤ period) (haverage : 0 ≤ average) (hamount : 0 ≤ amount) :
    0 ≤ moved period average amount := by
  have hrest : (0 : ℚ) ≤ period - 1 := sub_nonneg.2 (Nat.one_le_cast.2 hperiod)
  exact div_nonneg (add_nonneg (mul_nonneg haverage hrest) hamount) (Nat.cast_nonneg period)

/-- A new amount above zero lifts the average above zero. -/
theorem moved_pos_of_amount (hperiod : 1 ≤ period) (haverage : 0 ≤ average) (hamount : 0 < amount) :
    0 < moved period average amount := by
  have hrest : (0 : ℚ) ≤ period - 1 := sub_nonneg.2 (Nat.one_le_cast.2 hperiod)
  exact div_pos (add_pos_of_nonneg_of_pos (mul_nonneg haverage hrest) hamount)
    (Nat.cast_pos.2 hperiod)

/-- An average above zero stays there, unless the period is one and only the new amount counts. -/
theorem moved_pos_of_average (hperiod : 2 ≤ period) (haverage : 0 < average)
    (hamount : 0 ≤ amount) : 0 < moved period average amount := by
  have hrest : (0 : ℚ) < period - 1 := sub_pos.2 (Nat.one_lt_cast.2 hperiod)
  exact div_pos (add_pos_of_pos_of_nonneg (mul_pos haverage hrest) hamount)
    (Nat.cast_pos.2 (by omega))

/-- A move is the same at any scale. -/
theorem moved_mul (a : ℚ) :
    moved period (a * average) (a * amount) = a * moved period average amount := by
  rw [moved, moved]
  ring

end Moved

section Wilder

variable {period : Nat} {amounts : List ℚ}

theorem foldl_moved_nonneg (hperiod : 1 ≤ period) (h : ∀ x ∈ amounts, 0 ≤ x) {average : ℚ}
    (haverage : 0 ≤ average) : 0 ≤ amounts.foldl (moved period) average := by
  induction amounts generalizing average with
  | nil => exact haverage
  | cons x rest ih =>
    obtain ⟨hx, hrest⟩ := List.forall_mem_cons.1 h
    exact ih hrest (moved_nonneg hperiod haverage hx)

/-- Once the average is above zero, or an amount to come is, it ends above zero. -/
theorem foldl_moved_pos (hperiod : 2 ≤ period) (h : ∀ x ∈ amounts, 0 ≤ x) {average : ℚ}
    (haverage : 0 ≤ average) (hpos : 0 < average ∨ ∃ x ∈ amounts, 0 < x) :
    0 < amounts.foldl (moved period) average := by
  have hone : 1 ≤ period := by omega
  induction amounts generalizing average with
  | nil =>
    rcases hpos with hpos | ⟨x, hx, -⟩
    · exact hpos
    · cases hx
  | cons x rest ih =>
    obtain ⟨hx, hrest⟩ := List.forall_mem_cons.1 h
    refine ih hrest (moved_nonneg hone haverage hx) ?_
    rcases hpos with hpos | ⟨y, hy, hpos⟩
    · exact .inl (moved_pos_of_average hperiod hpos hx)
    rcases List.mem_cons.1 hy with rfl | hy
    · exact .inl (moved_pos_of_amount hone haverage hpos)
    · exact .inr ⟨y, hy, hpos⟩

theorem foldl_moved_map_mul (a average : ℚ) (amounts : List ℚ) :
    (amounts.map (a * ·)).foldl (moved period) (a * average) =
      a * amounts.foldl (moved period) average := by
  induction amounts generalizing average with
  | nil => rfl
  | cons x rest ih => rw [List.map_cons, List.foldl_cons, List.foldl_cons, moved_mul, ih]

theorem first_nonneg (h : ∀ x ∈ amounts, 0 ≤ x) : 0 ≤ (amounts.take period).sum / (period : ℚ) :=
  div_nonneg (List.sum_nonneg fun x hx => h x (List.mem_of_mem_take hx)) (Nat.cast_nonneg period)

theorem wilder_nonneg (hperiod : 1 ≤ period) (h : ∀ x ∈ amounts, 0 ≤ x) :
    0 ≤ wilder period amounts :=
  foldl_moved_nonneg hperiod (fun x hx => h x (List.mem_of_mem_drop hx)) (first_nonneg h)

/-- With a period above one, an amount above zero is never forgotten. -/
theorem wilder_pos (hperiod : 2 ≤ period) (h : ∀ x ∈ amounts, 0 ≤ x) (hpos : ∃ x ∈ amounts, 0 < x) :
    0 < wilder period amounts := by
  obtain ⟨x, hx, hpos⟩ := hpos
  rw [← List.take_append_drop period amounts] at hx
  refine foldl_moved_pos hperiod (fun y hy => h y (List.mem_of_mem_drop hy)) (first_nonneg h) ?_
  rcases List.mem_append.1 hx with hx | hx
  · have hle : x ≤ (amounts.take period).sum :=
      List.single_le_sum (fun y hy => h y (List.mem_of_mem_take hy)) x hx
    exact .inl (div_pos (hpos.trans_le hle) (Nat.cast_pos.2 (by omega)))
  · exact .inr ⟨x, hx, hpos⟩

/-- Wilder's average follows a change of scale. -/
theorem wilder_map_mul (a : ℚ) (amounts : List ℚ) :
    wilder period (amounts.map (a * ·)) = a * wilder period amounts := by
  rw [wilder, wilder, ← List.map_take, ← List.map_drop, List.sum_map_mul_left, List.map_id',
    mul_div_assoc, foldl_moved_map_mul]

theorem wilder_eq_zero (h : ∀ x ∈ amounts, x = 0) : wilder period amounts = 0 := by
  have hmap : amounts = amounts.map (0 * ·) := by
    conv_lhs => rw [← List.map_id amounts]
    exact List.map_congr_left fun x hx => by rw [h x hx, id_eq, zero_mul]
  rw [hmap, wilder_map_mul, zero_mul]

end Wilder

/-! ### Rises and falls -/

/-- The change to each close, where it is a rise, and zero elsewhere. -/
def gains (closes : List ℚ) : List ℚ := (changes closes).map fun m => max m 0

/-- The change to each close as a magnitude, where it is a fall, and zero elsewhere. -/
def losses (closes : List ℚ) : List ℚ := (changes closes).map fun m => max (-m) 0

theorem gains_nonneg (closes : List ℚ) : ∀ x ∈ gains closes, 0 ≤ x := by
  intro x hx
  obtain ⟨m, -, rfl⟩ := List.mem_map.1 hx
  exact le_max_right m 0

theorem losses_nonneg (closes : List ℚ) : ∀ x ∈ losses closes, 0 ≤ x := by
  intro x hx
  obtain ⟨m, -, rfl⟩ := List.mem_map.1 hx
  exact le_max_right (-m) 0

/-- The changes of closes in another scale and from another origin. -/
theorem changes_map_affine (a b : ℚ) (closes : List ℚ) :
    changes (closes.map fun c => a * c + b) = (changes closes).map (a * ·) := by
  induction closes with
  | nil => rfl
  | cons x rest ih =>
    cases rest with
    | nil => rfl
    | cons y rest =>
      have hchange : a * y + b - (a * x + b) = a * (y - x) := by ring
      rw [List.map_cons] at ih ⊢
      rw [List.map_cons, changes, changes, List.map_cons, hchange]
      exact congrArg _ ih

theorem gains_map_affine {a : ℚ} (ha : 0 ≤ a) (b : ℚ) (closes : List ℚ) :
    gains (closes.map fun c => a * c + b) = (gains closes).map (a * ·) := by
  rw [gains, gains, changes_map_affine, List.map_map, List.map_map]
  refine List.map_congr_left fun m _ => ?_
  rw [Function.comp_apply, Function.comp_apply, mul_max_of_nonneg m 0 ha, mul_zero]

theorem losses_map_affine {a : ℚ} (ha : 0 ≤ a) (b : ℚ) (closes : List ℚ) :
    losses (closes.map fun c => a * c + b) = (losses closes).map (a * ·) := by
  rw [losses, losses, changes_map_affine, List.map_map, List.map_map]
  refine List.map_congr_left fun m _ => ?_
  rw [Function.comp_apply, Function.comp_apply, mul_max_of_nonneg (-m) 0 ha, mul_zero, mul_neg]

/-- Upside down, every change has the opposite sign. -/
theorem changes_reflect (k : ℚ) (closes : List ℚ) :
    changes (closes.map fun c => k - c) = (changes closes).map Neg.neg := by
  have hreflect : (fun c => k - c) = fun c : ℚ => -1 * c + k := by
    funext c
    ring
  rw [hreflect, changes_map_affine]
  exact List.map_congr_left fun m _ => neg_one_mul m

theorem gains_reflect (k : ℚ) (closes : List ℚ) :
    gains (closes.map fun c => k - c) = losses closes := by
  rw [gains, losses, changes_reflect, List.map_map]
  rfl

theorem losses_reflect (k : ℚ) (closes : List ℚ) :
    losses (closes.map fun c => k - c) = gains closes := by
  rw [gains, losses, changes_reflect, List.map_map]
  refine List.map_congr_left fun m _ => ?_
  rw [Function.comp_apply, neg_neg]

/-- The change to each close. -/
theorem getElem?_changes (closes : List ℚ) (n : Nat) (h : n + 1 < closes.length) :
    (changes closes)[n]? = some (closes[n + 1] - closes[n]) := by
  induction closes generalizing n with
  | nil => cases h
  | cons x rest ih =>
    cases rest with
    | nil => exact absurd h (by simp)
    | cons y rest =>
      rw [changes]
      cases n with
      | zero => rfl
      | succ n => exact ih n (Nat.lt_of_succ_lt_succ h)

/-- The changes are the differences of neighbours. -/
theorem mem_changes_iff {closes : List ℚ} {m : ℚ} :
    m ∈ changes closes ↔ ∃ n, ∃ h : n + 1 < closes.length, closes[n + 1] - closes[n] = m := by
  rw [List.mem_iff_getElem?]
  constructor
  · rintro ⟨n, hn⟩
    have hlength := (List.getElem?_eq_some_iff.1 hn).1
    rw [length_changes] at hlength
    have hclose : n + 1 < closes.length := by omega
    rw [getElem?_changes closes n hclose, Option.some.injEq] at hn
    exact ⟨n, hclose, hn⟩
  · rintro ⟨n, h, rfl⟩
    exact ⟨n, getElem?_changes closes n h⟩

/-- Closes that never fall have no losses. -/
theorem losses_eq_zero {closes : List ℚ} (h : closes.Pairwise (· ≤ ·)) :
    ∀ x ∈ losses closes, x = 0 := by
  intro x hx
  obtain ⟨m, hm, rfl⟩ := List.mem_map.1 hx
  obtain ⟨n, hn, rfl⟩ := mem_changes_iff.1 hm
  have hle : closes[n] ≤ closes[n + 1] := List.pairwise_iff_getElem.1 h n (n + 1) _ _ (by omega)
  exact max_eq_right (neg_nonpos.2 (sub_nonneg.2 hle))

/-- Closes that never rise have no gains. -/
theorem gains_eq_zero {closes : List ℚ} (h : closes.Pairwise (· ≥ ·)) :
    ∀ x ∈ gains closes, x = 0 := by
  rw [← losses_reflect 0]
  exact losses_eq_zero (List.pairwise_map.2 (h.imp fun hle => sub_le_sub_left hle 0))

/-- A rise counts as a gain for good. -/
theorem wilder_gains_pos {period : Nat} (hperiod : 2 ≤ period) {closes : List ℚ}
    (h : ∃ n, ∃ h : n + 1 < closes.length, closes[n] < closes[n + 1]) :
    0 < wilder period (gains closes) := by
  obtain ⟨n, hn, hrise⟩ := h
  have hchange : 0 < closes[n + 1] - closes[n] := sub_pos.2 hrise
  refine wilder_pos hperiod (gains_nonneg closes) ⟨closes[n + 1] - closes[n], ?_, hchange⟩
  exact List.mem_map.2 ⟨_, mem_changes_iff.2 ⟨n, hn, rfl⟩, max_eq_left hchange.le⟩

/-- A fall counts as a loss for good. -/
theorem wilder_losses_pos {period : Nat} (hperiod : 2 ≤ period) {closes : List ℚ}
    (h : ∃ n, ∃ h : n + 1 < closes.length, closes[n + 1] < closes[n]) :
    0 < wilder period (losses closes) := by
  obtain ⟨n, hn, hfall⟩ := h
  rw [← gains_reflect 0]
  refine wilder_gains_pos hperiod ⟨n, by rwa [List.length_map], ?_⟩
  rw [List.getElem_map, List.getElem_map]
  exact sub_lt_sub_left hfall 0

/-! ### The share of the rises -/

/-- The share of an average rise in the sum of it and an average fall, out of a hundred. -/
def share (gain loss : ℚ) : ℚ := if 0 < gain + loss then 100 * gain / (gain + loss) else 50

section Share

variable {gain loss : ℚ}

theorem share_nonneg (hgain : 0 ≤ gain) : 0 ≤ share gain loss := by
  rw [share]
  split
  · rename_i hpos
    exact div_nonneg (mul_nonneg (by norm_num) hgain) hpos.le
  · norm_num

/-- With the rise and the fall exchanged, the shares add up to a hundred. -/
theorem share_swap (gain loss : ℚ) : share loss gain = 100 - share gain loss := by
  rw [share, share, add_comm loss gain]
  split
  · rename_i hpos
    rw [eq_sub_iff_add_eq, ← add_div, ← mul_add, add_comm loss gain,
      mul_div_cancel_right₀ _ hpos.ne']
  · norm_num

theorem share_le (hloss : 0 ≤ loss) : share gain loss ≤ 100 := by
  have hrest : 0 ≤ share loss gain := share_nonneg hloss
  rw [share_swap] at hrest
  exact sub_nonneg.1 hrest

theorem share_mul {a : ℚ} (ha : 0 < a) : share (a * gain) (a * loss) = share gain loss := by
  rw [share, share, ← mul_add, mul_left_comm, mul_div_mul_left _ _ ha.ne']
  exact if_congr (mul_pos_iff_of_pos_left ha) rfl rfl

theorem share_zero_right (hgain : 0 < gain) : share gain 0 = 100 := by
  rw [share, add_zero, if_pos hgain, mul_div_cancel_right₀ _ hgain.ne']

theorem share_zero : share 0 0 = 50 := by
  rw [share, add_zero, if_neg (lt_irrefl 0)]

end Share

/-! ### The index -/

/-- Of exact changes, the rise is the greater of the change and zero. -/
theorem rise_rat (m : ℚ) : rise m = max m 0 := by
  rw [rise, Scalar.zero_rat, max_comm, max_def_lt]
  exact if_congr Scalar.less_rat rfl rfl

/-- The index is the share of the rises, also where nothing fell or nothing moved. -/
theorem Averages.index_rat {a : Averages ℚ} (hgain : 0 ≤ a.gain) (hloss : 0 ≤ a.loss) :
    a.index = share a.gain a.loss := by
  simp only [index, Scalar.zero_rat, Scalar.same_rat, Scalar.ofCount_rat]
  split
  · rename_i hzero
    rw [hzero]
    split
    · rename_i hnothing
      rw [hnothing, share_zero, Nat.cast_ofNat]
    · rename_i hrise
      rw [share_zero_right (hgain.lt_of_ne' hrise), Nat.cast_ofNat]
  · rename_i hfall
    have hpos : 0 < a.loss := hloss.lt_of_ne' hfall
    have hsum : 0 < a.gain + a.loss := add_pos_of_nonneg_of_pos hgain hpos
    rw [share, if_pos hsum]
    push_cast
    field_simp
    ring

theorem smoothed_rat {period : Nat} (hpos : 1 ≤ period) (average amount : ℚ) :
    smoothed period average amount = moved period average amount := by
  rw [smoothed, moved, Scalar.ofCount_rat, Scalar.ofCount_rat, Nat.cast_pred hpos]

/-- Both averages move on their own. -/
theorem Averages.foldl_step {period : Nat} (hpos : 1 ≤ period) (moves : List ℚ) (a : Averages ℚ) :
    moves.foldl (Averages.step period) a =
      ⟨(moves.map fun m => max m 0).foldl (moved period) a.gain,
        (moves.map fun m => max (-m) 0).foldl (moved period) a.loss⟩ := by
  induction moves generalizing a with
  | nil => rfl
  | cons m rest ih =>
    have hstep : a.step period m =
        ⟨moved period a.gain (max m 0), moved period a.loss (max (-m) 0)⟩ := by
      rw [step, smoothed_rat hpos, smoothed_rat hpos, rise_rat, rise_rat]
    rw [List.foldl_cons, ih, hstep]
    rfl

theorem Averages.first_rat (period : Nat) (moves : List ℚ) :
    first period moves = ⟨((moves.map fun m => max m 0).take period).sum / period,
      ((moves.map fun m => max (-m) 0).take period).sum / period⟩ := by
  have hrise : (rise : ℚ → ℚ) = fun m => max m 0 := funext rise_rat
  rw [first, Average.sum_rat, Average.sum_rat, Scalar.ofCount_rat, ← List.map_take,
    ← List.map_take, hrise]

theorem Averages.getLast?_follow {α : Type} [Scalar α] (period : Nat) (a : Averages α)
    (moves : List α) :
    (a.follow period moves).getLast? = some (moves.foldl (Averages.step period) a) := by
  induction moves generalizing a with
  | nil => rfl
  | cons m rest ih =>
    have hne : (a.step period m).follow period rest ≠ [] := by
      rw [← List.length_pos_iff, length_follow]
      exact Nat.succ_pos _
    rw [follow, List.getLast?_cons_of_ne_nil hne, ih, List.foldl_cons]

/-- The newest index is the share of Wilder's average of the gains. -/
theorem getLast?_history {period : Nat} {closes : List ℚ} (hpos : 1 ≤ period)
    (h : period < closes.length) :
    (history period closes).getLast?.join =
      some (share (wilder period (gains closes)) (wilder period (losses closes))) := by
  have hlast : ((changes closes).drop period).foldl (Averages.step period)
      (Averages.first period (changes closes)) =
        ⟨wilder period (gains closes), wilder period (losses closes)⟩ := by
    rw [Averages.foldl_step hpos, Averages.first_rat, List.map_drop, List.map_drop]
    rfl
  have hindex : Averages.index ⟨wilder period (gains closes), wilder period (losses closes)⟩ =
      share (wilder period (gains closes)) (wilder period (losses closes)) :=
    Averages.index_rat (wilder_nonneg hpos (gains_nonneg closes))
      (wilder_nonneg hpos (losses_nonneg closes))
  rw [history, if_neg (by omega)]
  dsimp only
  rw [List.getLast?_append, List.getLast?_map, Averages.getLast?_follow, hlast, Option.map_some,
    Option.some_or, Option.join_some, hindex]

end Strength

namespace Indicator

open Strength

/-- Where nothing is rounded, the relative strength has a value from one close more than its period
on: the share of Wilder's average gain in the sum of the average gain and the average loss, out of a
hundred, and fifty where both are zero. It lies between zero and a hundred, is reflected with the
closes, and does not depend on their scale and origin. Closes that are all the same have fifty; with
a period above one, closes that rise and never fall have a hundred, and closes that fall and never
rise have zero. -/
theorem relative_strength_oscillates {period : Nat} {closes : List ℚ} (hpos : 1 ≤ period)
    (h : period < closes.length) (volumes : List ℚ) :
    let gain := wilder period (gains closes)
    let loss := wilder period (losses closes)
    ∃ r, value? ⟨.rsi, period⟩ closes volumes = some r ∧ 0 ≤ r ∧ r ≤ 100 ∧
      (∀ k, value? ⟨.rsi, period⟩ (closes.map fun c => k - c) volumes = some (100 - r)) ∧
      (∀ a b, 0 < a → value? ⟨.rsi, period⟩ (closes.map fun c => a * c + b) volumes = some r) ∧
      r = (if 0 < gain + loss then 100 * gain / (gain + loss) else 50) ∧
      (∀ k, (∀ c ∈ closes, c = k) → r = 50) ∧
      (2 ≤ period → closes.Pairwise (· ≤ ·) →
        (∃ n, ∃ h : n + 1 < closes.length, closes[n] < closes[n + 1]) → r = 100) ∧
      (2 ≤ period → closes.Pairwise (· ≥ ·) →
        (∃ n, ∃ h : n + 1 < closes.length, closes[n + 1] < closes[n]) → r = 0) := by
  intro gain loss
  have hvalue {closes : List ℚ} (h : period < closes.length) :
      value? ⟨.rsi, period⟩ closes volumes =
        some (share (wilder period (gains closes)) (wilder period (losses closes))) :=
    getLast?_history hpos h
  have hgain : 0 ≤ gain := wilder_nonneg hpos (gains_nonneg closes)
  have hloss : 0 ≤ loss := wilder_nonneg hpos (losses_nonneg closes)
  refine ⟨share gain loss, hvalue h, share_nonneg hgain, share_le hloss, fun k => ?_,
    fun a b ha => ?_, rfl, fun k hk => ?_, fun hperiod hsorted hrise => ?_,
    fun hperiod hsorted hfall => ?_⟩
  · rw [hvalue (by rwa [List.length_map]), gains_reflect, losses_reflect, share_swap]
  · rw [hvalue (by rwa [List.length_map]), gains_map_affine ha.le, losses_map_affine ha.le,
      wilder_map_mul, wilder_map_mul, share_mul ha]
  · have hrises : closes.Pairwise (· ≤ ·) :=
      List.pairwise_of_forall_mem_list fun c hc d hd => ((hk c hc).trans (hk d hd).symm).le
    have hfalls : closes.Pairwise (· ≥ ·) :=
      List.pairwise_of_forall_mem_list fun c hc d hd => ((hk c hc).trans (hk d hd).symm).ge
    have hnogain : gain = 0 := wilder_eq_zero (gains_eq_zero hfalls)
    have hnoloss : loss = 0 := wilder_eq_zero (losses_eq_zero hrises)
    rw [hnogain, hnoloss, share_zero]
  · have hnoloss : loss = 0 := wilder_eq_zero (losses_eq_zero hsorted)
    rw [hnoloss, share_zero_right (wilder_gains_pos hperiod hrise)]
  · have hnogain : gain = 0 := wilder_eq_zero (gains_eq_zero hsorted)
    rw [hnogain, share_swap, share_zero_right (wilder_losses_pos hperiod hfall), sub_self]

/-- Over two changes at a time: of the changes 2, -1 and 3, the average gain is 2 and the average
loss a quarter, and upside down they are exchanged. -/
theorem relative_strength_oscillates_steps :
    let closes : List ℚ := [10, 12, 11, 14]
    let rising : List ℚ := [10, 12, 12, 14]
    wilder 2 (gains closes) = 2 ∧ wilder 2 (losses closes) = 1 / 4 ∧
      value? ⟨.rsi, 2⟩ closes [] = some (800 / 9) ∧
      value? ⟨.rsi, 2⟩ (closes.map fun c => 20 - c) [] = some (100 / 9) ∧
      value? ⟨.rsi, 2⟩ rising [] = some 100 := by
  intro closes rising
  have hgain : wilder 2 (gains closes) = 2 := by decide +kernel
  have hloss : wilder 2 (losses closes) = 1 / 4 := by decide +kernel
  obtain ⟨r, hr, -, -, hreflect, -, hshare, -⟩ :=
    @relative_strength_oscillates 2 closes (by decide) (by decide) []
  have hvalue : r = 800 / 9 := by
    rw [hshare, hgain, hloss]
    norm_num
  have hrest : (100 : ℚ) - 800 / 9 = 100 / 9 := by norm_num
  obtain ⟨s, hs, -, -, -, -, -, -, hrise, -⟩ :=
    @relative_strength_oscillates 2 rising (by decide) (by decide) []
  have hhundred : s = 100 :=
    hrise (Nat.le_refl 2) (by decide +kernel) ⟨0, by decide, by decide +kernel⟩
  exact ⟨hgain, hloss, hvalue ▸ hr, hrest ▸ hvalue ▸ hreflect 20, hhundred ▸ hs⟩

end Indicator

end TradeRules
