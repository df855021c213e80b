import TradeRules.Proofs.Indicator.Pointwise

/-!
# Means of exact values

Where nothing is rounded, the arithmetic mean is that of the last window, and the exponential mean
starts at that of the first window and moves by a fixed share towards each later value. The share is
between zero and one, so that neither step leaves an interval that holds all values, and both
steps follow a change of scale and origin of all values.
-/

namespace TradeRules

namespace Average

/-! ### The mean of a window -/

/-- The plain mean of some values. -/
def plain (values : List ℚ) : ℚ := values.sum / values.length

theorem length_pos_rat {values : List ℚ} (h : values ≠ []) : (0 : ℚ) < values.length :=
  Nat.cast_pos.2 (List.length_pos_iff.2 h)

/-- A plain mean lies in an interval that holds its values. -/
theorem plain_mem_Icc {lo hi : ℚ} {values : List ℚ} (hne : values ≠ [])
    (h : ∀ v ∈ values, v ∈ Set.Icc lo hi) : plain values ∈ Set.Icc lo hi := by
  have hbelow := List.card_nsmul_le_sum values lo fun v hv => (h v hv).1
  have habove := List.sum_le_card_nsmul values hi fun v hv => (h v hv).2
  rw [nsmul_eq_mul, mul_comm] at hbelow habove
  exact ⟨(le_div_iff₀ (length_pos_rat hne)).2 hbelow, (div_le_iff₀ (length_pos_rat hne)).2 habove⟩

/-- The sum of values in another scale and from another origin. -/
theorem sum_map_affine (a b : ℚ) (values : List ℚ) :
    (values.map fun v => a * v + b).sum = a * values.sum + values.length * b := by
  induction values with
  | nil => simp
  | cons v rest ih =>
    simp only [List.map_cons, List.sum_cons, List.length_cons, Nat.cast_add_one, ih]
    ring

/-- A plain mean follows a change of scale and origin. -/
theorem plain_map_affine (a b : ℚ) {values : List ℚ} (hne : values ≠ []) :
    plain (values.map fun v => a * v + b) = a * plain values + b := by
  have hlength : (values.length : ℚ) ≠ 0 := (length_pos_rat hne).ne'
  rw [plain, plain, sum_map_affine, List.length_map, add_div, mul_div_assoc,
    mul_div_cancel_left₀ b hlength]

/-- The arithmetic mean is the plain mean of the last window. -/
theorem mean?_eq_plain {period : Nat} {values : List ℚ} (hpos : 0 < period)
    (h : period ≤ values.length) :
    mean? period values = some (plain (values.drop (values.length - period))) := by
  have hlength : (values.drop (values.length - period)).length = period := by
    rw [List.length_drop]
    omega
  rw [mean?_rat hpos h, plain, hlength, windowSum, Scalar.ofCount_rat]

/-! ### The exponential mean -/

/-- A mean that is moved by a share towards a new value. -/
def toward (share mean v : ℚ) : ℚ := v * share + mean * (1 - share)

/-- Moving by a part of the way stays in an interval that holds both ends. -/
theorem toward_mem_Icc {share lo hi mean v : ℚ} (hshare : share ∈ Set.Icc 0 1)
    (hmean : mean ∈ Set.Icc lo hi) (hv : v ∈ Set.Icc lo hi) :
    toward share mean v ∈ Set.Icc lo hi := by
  have hrest : 0 ≤ 1 - share := sub_nonneg.2 hshare.2
  constructor
  · calc lo = lo * share + lo * (1 - share) := by ring
      _ ≤ v * share + mean * (1 - share) :=
          add_le_add (mul_le_mul_of_nonneg_right hv.1 hshare.1)
            (mul_le_mul_of_nonneg_right hmean.1 hrest)
  · calc v * share + mean * (1 - share) ≤ hi * share + hi * (1 - share) :=
          add_le_add (mul_le_mul_of_nonneg_right hv.2 hshare.1)
            (mul_le_mul_of_nonneg_right hmean.2 hrest)
      _ = hi := by ring

/-- The share is between zero and one. -/
theorem weight_mem_Icc {period : Nat} (hpos : 0 < period) :
    weight period ∈ Set.Icc (0 : ℚ) 1 := by
  have hperiod : (1 : ℚ) ≤ period := Nat.one_le_cast.2 hpos
  have hden : (0 : ℚ) < period + 1 := by linarith
  rw [weight, Scalar.ofCount_rat, Scalar.ofCount_rat, Scalar.ofCount_rat, Nat.cast_one,
    Nat.cast_ofNat]
  exact ⟨div_nonneg zero_le_two hden.le, (div_le_one hden).2 (by linarith)⟩

/-- The exponential mean of some values: the plain mean of the first window, moved towards each
later value. -/
def smooth (period : Nat) (values : List ℚ) : ℚ :=
  (values.drop period).foldl (toward (weight period)) (plain (values.take period))

/-- The last of the means that follow one. -/
theorem getLast?_smoothFrom (share mean : ℚ) (values : List ℚ) :
    (mean :: smoothFrom share mean values).getLast? =
      some (values.foldl (toward share) mean) := by
  induction values generalizing mean with
  | nil => rfl
  | cons v rest ih =>
    rw [smoothFrom, List.getLast?_cons_cons]
    exact ih (toward share mean v)

/-- The first mean is the plain mean of the first window. -/
theorem seed_eq_plain {period : Nat} {values : List ℚ} (h : period ≤ values.length) :
    seed period values = plain (values.take period) := by
  have hsum : (values.take period).foldl (· + ·) (Scalar.zero : ℚ) = (values.take period).sum := by
    change sum (Scalar.zero :: values.take period) = _
    rw [sum_rat, List.sum_cons, Scalar.zero_rat, zero_add]
  rw [seed, plain, hsum, List.length_take, Nat.min_eq_left h, Scalar.ofCount_rat]

/-- The newest exponential mean. -/
theorem getLast?_exponential {period : Nat} {values : List ℚ} (hpos : 0 < period)
    (h : period ≤ values.length) :
    (exponential period values).getLast?.join = some (smooth period values) := by
  rw [exponential, if_neg (by omega)]
  dsimp only
  rw [List.getLast?_append, List.getLast?_map, getLast?_smoothFrom, seed_eq_plain h]
  rfl

/-- Moving towards one value after the other stays in an interval that holds the start and all
values. -/
theorem foldl_toward_mem_Icc {share lo hi : ℚ} (hshare : share ∈ Set.Icc 0 1) {values : List ℚ}
    (h : ∀ v ∈ values, v ∈ Set.Icc lo hi) {mean : ℚ} (hmean : mean ∈ Set.Icc lo hi) :
    values.foldl (toward share) mean ∈ Set.Icc lo hi := by
  induction values generalizing mean with
  | nil => exact hmean
  | cons v rest ih =>
    obtain ⟨hv, hrest⟩ := List.forall_mem_cons.1 h
    exact ih hrest (toward_mem_Icc hshare hmean hv)

/-- Moving towards one value after the other follows a change of scale and origin. -/
theorem foldl_toward_map_affine (a b share mean : ℚ) (values : List ℚ) :
    (values.map fun v => a * v + b).foldl (toward share) (a * mean + b) =
      a * values.foldl (toward share) mean + b := by
  induction values generalizing mean with
  | nil => rfl
  | cons v rest ih =>
    have hstep : toward share (a * mean + b) (a * v + b) = a * toward share mean v + b := by
      rw [toward, toward]
      ring
    rw [List.map_cons, List.foldl_cons, List.foldl_cons, hstep, ih]

section Smooth

variable {period : Nat} {values : List ℚ}

theorem take_ne_nil (hpos : 0 < period) (h : period ≤ values.length) : values.take period ≠ [] := by
  rw [← List.length_pos_iff, List.length_take]
  omega

/-- The exponential mean lies in an interval that holds all values. -/
theorem smooth_mem_Icc (hpos : 0 < period) (h : period ≤ values.length) {lo hi : ℚ}
    (hvalues : ∀ v ∈ values, v ∈ Set.Icc lo hi) : smooth period values ∈ Set.Icc lo hi := by
  have hfirst : plain (values.take period) ∈ Set.Icc lo hi :=
    plain_mem_Icc (take_ne_nil hpos h) fun v hv => hvalues v (List.mem_of_mem_take hv)
  exact foldl_toward_mem_Icc (weight_mem_Icc hpos)
    (fun v hv => hvalues v (List.mem_of_mem_drop hv)) hfirst

/-- The exponential mean follows a change of scale and origin. -/
theorem smooth_map_affine (a b : ℚ) (hpos : 0 < period) (h : period ≤ values.length) :
    smooth period (values.map fun v => a * v + b) = a * smooth period values + b := by
  rw [smooth, smooth, ← List.map_take, ← List.map_drop, plain_map_affine a b (take_ne_nil hpos h),
    foldl_toward_map_affine]

end Smooth

end Average

namespace Indicator

open Average

/-- Where nothing is rounded, both means have a value as soon as there is a window. The arithmetic
mean is between the least and the greatest of the last window, the exponential mean between those of
all values; both follow a change of scale and origin, and so give back a constant. They are the same
where there is no value beyond the first window. -/
theorem means_between_and_affine {period : Nat} {values : List ℚ} (hpos : 1 ≤ period)
    (h : period ≤ values.length) (volumes : List ℚ) :
    ∃ s e, value? ⟨.sma, period⟩ values volumes = some s ∧
      value? ⟨.ema, period⟩ values volumes = some e ∧
      (∃ lo hi, (values.drop (values.length - period)).min? = some lo ∧
        (values.drop (values.length - period)).max? = some hi ∧ lo ≤ s ∧ s ≤ hi) ∧
      (∃ lo hi, values.min? = some lo ∧ values.max? = some hi ∧ lo ≤ e ∧ e ≤ hi) ∧
      (∀ a b, value? ⟨.sma, period⟩ (values.map fun v => a * v + b) volumes = some (a * s + b) ∧
        value? ⟨.ema, period⟩ (values.map fun v => a * v + b) volumes = some (a * e + b)) ∧
      (∀ c, (∀ v ∈ values, v = c) → s = c ∧ e = c) ∧
      (values.length = period → e = s) := by
  have hmean {values : List ℚ} (h : period ≤ values.length) :
      value? ⟨.sma, period⟩ values volumes =
        some (plain (values.drop (values.length - period))) := mean?_eq_plain hpos h
  have hsmooth {values : List ℚ} (h : period ≤ values.length) :
      value? ⟨.ema, period⟩ values volumes = some (smooth period values) :=
    getLast?_exponential hpos h
  have hwindow : values.drop (values.length - period) ≠ [] := by
    rw [← List.length_pos_iff, List.length_drop]
    omega
  have hvalues : values ≠ [] := List.ne_nil_of_length_pos (Nat.lt_of_lt_of_le hpos h)
  have hbounds {row : List ℚ} (hrow : row ≠ []) : ∃ lo hi, row.min? = some lo ∧
      row.max? = some hi ∧ ∀ v ∈ row, v ∈ Set.Icc lo hi := by
    obtain ⟨lo, hlo⟩ := Option.isSome_iff_exists.1 (List.isSome_min?_of_ne_nil hrow)
    obtain ⟨hi, hhi⟩ := Option.isSome_iff_exists.1 (List.isSome_max?_of_ne_nil hrow)
    exact ⟨lo, hi, hlo, hhi, fun v hv =>
      ⟨(List.min?_eq_some_iff.1 hlo).2 v hv, (List.max?_eq_some_iff.1 hhi).2 v hv⟩⟩
  refine ⟨_, _, hmean h, hsmooth h, ?_, ?_, fun a b => ?_, fun c hc => ?_, fun hlength => ?_⟩
  · obtain ⟨lo, hi, hlo, hhi, hrow⟩ := hbounds hwindow
    exact ⟨lo, hi, hlo, hhi, plain_mem_Icc hwindow hrow⟩
  · obtain ⟨lo, hi, hlo, hhi, hrow⟩ := hbounds hvalues
    exact ⟨lo, hi, hlo, hhi, smooth_mem_Icc hpos h hrow⟩
  · have hlength : period ≤ (values.map fun v => a * v + b).length := by rwa [List.length_map]
    rw [hmean hlength, hsmooth hlength, List.length_map, ← List.map_drop,
      plain_map_affine a b hwindow, smooth_map_affine a b hpos h]
    exact ⟨rfl, rfl⟩
  · have hpoint (v : ℚ) (hv : v ∈ values) : v ∈ Set.Icc c c := ⟨(hc v hv).ge, (hc v hv).le⟩
    have hs := plain_mem_Icc hwindow fun v hv => hpoint v (List.mem_of_mem_drop hv)
    have he := smooth_mem_Icc hpos h hpoint
    rw [Set.Icc_self] at hs he
    exact ⟨hs, he⟩
  · rw [smooth, hlength, Nat.sub_self, List.drop_zero, ← hlength, List.drop_length,
      List.take_length]
    rfl

/-- Means over two of three values, which are no whole numbers. -/
theorem means_between_and_affine_three :
    let values : List ℚ := [3 / 2, 4, 7 / 2]
    value? ⟨.sma, 2⟩ values [] = some (15 / 4) ∧ value? ⟨.ema, 2⟩ values [] = some (13 / 4) ∧
      value? ⟨.ema, 2⟩ (values.map fun v => -2 * v + 1) [] = some (-11 / 2) := by
  intro values
  obtain ⟨s, e, hs, he, -, -, haffine, -⟩ :=
    @means_between_and_affine 2 values (by decide) (by decide) []
  have hsma : value? ⟨.sma, 2⟩ values [] = some (15 / 4) := by decide +kernel
  have hema : value? ⟨.ema, 2⟩ values [] = some (13 / 4) := by decide +kernel
  refine ⟨hsma, hema, ?_⟩
  rw [(haffine (-2) 1).2, Option.some.inj (he.symm.trans hema)]
  norm_num

end Indicator

end TradeRules
