import TradeRules.Proofs.Indicator.Pointwise

/-!
# Indicators by position

The indicators walk along their rows. Here they are computed by position instead: with one counter
that runs along the row, and with counts of 64 bits, where each entry that is read or written has to
exist, each sum has to be a count and no difference may fall below zero. None of these checks ever
fails, whatever the period and the numbers in the row, and the values are the same.
-/

namespace TradeRules

open Number (maxCount)

namespace Position

/-- What may go wrong with positions. -/
inductive Fault where
  /-- There is no entry at the position. -/
  | outOfRange
  /-- A sum is above the greatest count. -/
  | overflow
  /-- A difference is below zero. -/
  | underflow
  deriving DecidableEq, Repr

/-! ### Counts and entries -/

/-- The sum of two counts. -/
def plus (a b : Nat) : Except Fault Nat :=
  if a + b ≤ maxCount then .ok (a + b) else .error .overflow

/-- The difference of two counts. -/
def minus (a b : Nat) : Except Fault Nat := if b ≤ a then .ok (a - b) else .error .underflow

section Rows

variable {β : Type}

/-- The entry at a position. -/
def get (row : List β) (n : Nat) : Except Fault β :=
  match row[n]? with
  | some entry => .ok entry
  | none => .error .outOfRange

/-- The row with another entry at a position. -/
def put (row : List β) (n : Nat) (entry : β) : Except Fault (List β) :=
  if n < row.length then .ok (row.set n entry) else .error .outOfRange

/-- The entries before a position. -/
def front (row : List β) (stop : Nat) : Except Fault (List β) :=
  if stop ≤ row.length then .ok (row.take stop) else .error .outOfRange

/-- The entries from a position on. -/
def back (row : List β) (start : Nat) : Except Fault (List β) :=
  if start ≤ row.length then .ok (row.drop start) else .error .outOfRange

theorem plus_eq_ok {a b : Nat} (h : a + b ≤ maxCount) : plus a b = .ok (a + b) := if_pos h

theorem minus_eq_ok {a b : Nat} (h : b ≤ a) : minus a b = .ok (a - b) := if_pos h

theorem get_eq_ok {row : List β} {n : Nat} (h : n < row.length) : get row n = .ok row[n] := by
  rw [get, List.getElem?_eq_getElem h]

theorem front_eq_ok {row : List β} {stop : Nat} (h : stop ≤ row.length) :
    front row stop = .ok (row.take stop) := if_pos h

theorem back_eq_ok {row : List β} {start : Nat} (h : start ≤ row.length) :
    back row start = .ok (row.drop start) := if_pos h

/-- The entry after a beginning is replaced. -/
theorem put_append (before : List β) (entry old : β) (after : List β) :
    put (before ++ old :: after) before.length entry = .ok (before ++ entry :: after) := by
  have h : before.length < (before ++ old :: after).length := by
    rw [List.length_append, List.length_cons]
    omega
  rw [put, if_pos h, List.set_append_right _ _ (Nat.le_refl _), Nat.sub_self, List.set_cons_zero]

theorem ok_bind {γ : Type} (entry : β) (f : β → Except Fault γ) :
    (Except.ok entry >>= f) = f entry := rfl

/-- One entry for each value of a row, computed of the position, a state and the value. -/
def walk {α σ : Type} (step : Nat → σ → α → Except Fault (σ × β)) :
    Nat → σ → List α → Except Fault (List β)
  | _, _, [] => .ok []
  | place, s, v :: rest => do
    let (s, entry) ← step place s v
    let next ← plus place 1
    let later ← walk step next s rest
    pure (entry :: later)

/-- A walk goes on where its step does not fail. -/
theorem walk_cons {α σ : Type} {step : Nat → σ → α → Except Fault (σ × β)} {place : Nat} {s s' : σ}
    {v : α} {rest : List α} {entry : β} {later : List β} (hstep : step place s v = .ok (s', entry))
    (hplace : place + 1 ≤ maxCount) (hlater : walk step (place + 1) s' rest = .ok later) :
    walk step place s (v :: rest) = .ok (entry :: later) := by
  rw [walk, hstep, ok_bind]
  dsimp only
  rw [plus_eq_ok hplace, ok_bind, hlater]
  rfl

end Rows

/-! ### Means -/

variable {α : Type} [Scalar α]

/-- The mean of the last `period` values. -/
def mean (period : Nat) (values : List α) : Except Fault (Option α) :=
  if period = 0 ∨ values.length < period then .ok none
  else do
    let start ← minus values.length period
    let window ← back values start
    pure (some (Average.sum window / Scalar.ofCount period))

/-- One value of a rolling mean: it is added, and the value that the window leaves behind is taken
away. -/
def rollStep (period : Nat) (values : List α) (place : Nat) (total v : α) :
    Except Fault (α × Option α) := do
  let total := total + v
  let total ← if period ≤ place then do
      let start ← minus place period
      let old ← get values start
      pure (total - old)
    else pure total
  let seen ← plus place 1
  pure (total, if period ≤ seen then some (total / Scalar.ofCount period) else none)

/-- The rolling mean at every value. -/
def rolling (period : Nat) (values : List α) : Except Fault (List (Option α)) :=
  if period = 0 then .ok (values.map fun _ => none)
  else walk (rollStep period values) 0 Scalar.zero values

/-- One value of an exponential mean, given the sum of the first values and the mean before. -/
def smoothStep (period : Nat) (k : α) (place : Nat) (s : α × α) (v : α) :
    Except Fault ((α × α) × Option α) := do
  let last ← minus period 1
  if place < last then pure ((s.1 + v, s.2), none)
  else do
    let last ← minus period 1
    if place = last then
      let total := s.1 + v
      let first := total / Scalar.ofCount period
      pure ((total, first), some first)
    else
      let next := v * k + s.2 * (Scalar.ofCount 1 - k)
      pure ((s.1, next), some next)

/-- The exponential mean at every value. -/
def exponential (period : Nat) (values : List α) : Except Fault (List (Option α)) :=
  if period = 0 then .ok (values.map fun _ => none)
  else walk (smoothStep period (Average.weight period)) 0 (Scalar.zero, Scalar.zero) values

theorem mean_eq_ok (period : Nat) (values : List α) :
    mean period values = .ok (Average.mean? period values) := by
  rw [mean, Average.mean?]
  split
  · rfl
  · rename_i h
    have hstart : values.length - period ≤ values.length := Nat.sub_le _ _
    rw [minus_eq_ok (by omega), ok_bind, back_eq_ok hstart, ok_bind]
    rfl

/-- The walk of a rolling mean from a place on. -/
theorem walk_rollStep {period : Nat} {values : List α} (hvalues : values.length ≤ maxCount)
    (place : Nat) (total : α) (rest : List α) (hplace : place + rest.length = values.length) :
    walk (rollStep period values) place total rest =
      .ok (Average.rollFrom period place total rest (values.drop (place - period))) := by
  induction rest generalizing place total with
  | nil => rfl
  | cons v rest ih =>
    rw [List.length_cons] at hplace
    have hseen : plus place 1 = .ok (place + 1) := plus_eq_ok (by omega)
    have hlater (total : α) := ih (place + 1) total (by omega)
    by_cases hfilling : place < period
    · have hstep : rollStep period values place total v =
          .ok (total + v, if period ≤ place + 1 then
            some ((total + v) / Scalar.ofCount period) else none) := by
        rw [rollStep, if_neg (Nat.not_le_of_lt hfilling)]
        change (plus place 1 >>= _) = _
        rw [hseen]
        rfl
      have hfull : period ≤ place + 1 ↔ place + 1 = period := by omega
      have hleaving : place - period = place + 1 - period := by omega
      rw [walk_cons hstep (by omega) (hlater _), Average.rollFrom_filling hfilling, hleaving,
        if_congr hfull rfl rfl]
    · have hstart : place - period < values.length := by omega
      have hstep : rollStep period values place total v =
          .ok (total + v - values[place - period],
            some ((total + v - values[place - period]) / Scalar.ofCount period)) := by
        rw [rollStep, if_pos (Nat.le_of_not_lt hfilling), minus_eq_ok (by omega), ok_bind,
          get_eq_ok hstart, ok_bind]
        change (plus place 1 >>= _) = _
        rw [hseen, ok_bind, if_pos (by omega)]
        rfl
      have hleaving : place + 1 - period = place - period + 1 := by omega
      rw [walk_cons hstep (by omega) (hlater _), List.drop_eq_getElem_cons hstart,
        Average.rollFrom_full (Nat.le_of_not_lt hfilling), hleaving]

theorem rolling_eq_ok (period : Nat) {values : List α} (hvalues : values.length ≤ maxCount) :
    rolling period values = .ok (Average.rolling period values) := by
  rw [rolling, Average.rolling]
  split
  · rfl
  · rw [walk_rollStep hvalues 0 Scalar.zero values (Nat.zero_add _), Nat.zero_sub, List.drop_zero]

/-- The walk of an exponential mean beyond the first window. -/
theorem walk_smoothStep_later {period : Nat} (hpos : 0 < period) (k : α) {place : Nat}
    (hfull : period ≤ place) (total mean : α) (rest : List α)
    (hplace : place + rest.length ≤ maxCount) :
    walk (smoothStep period k) place (total, mean) rest =
      .ok ((Average.smoothFrom k mean rest).map some) := by
  induction rest generalizing place mean with
  | nil => rfl
  | cons v rest ih =>
    rw [List.length_cons] at hplace
    have hstep : smoothStep period k place (total, mean) v =
        .ok ((total, v * k + mean * (Scalar.ofCount 1 - k)),
          some (v * k + mean * (Scalar.ofCount 1 - k))) := by
      rw [smoothStep, minus_eq_ok hpos, ok_bind, if_neg (by omega), ok_bind, if_neg (by omega)]
      rfl
    exact walk_cons hstep (by omega) (ih (Nat.le_succ_of_le hfull) _ (by omega))

/-- The walk of an exponential mean over a row that ends within the first window. -/
theorem walk_smoothStep_short {period : Nat} (k : α) {place : Nat} (s : α × α) (rest : List α)
    (hshort : place + rest.length < period) (hplace : place + rest.length ≤ maxCount) :
    walk (smoothStep period k) place s rest = .ok (rest.map fun _ => none) := by
  induction rest generalizing place s with
  | nil => rfl
  | cons v rest ih =>
    rw [List.length_cons] at hshort hplace
    have hstep : smoothStep period k place s v = .ok ((s.1 + v, s.2), none) := by
      rw [smoothStep, minus_eq_ok (by omega), ok_bind, if_pos (by omega)]
      rfl
    exact walk_cons hstep (by omega) (ih _ (by omega) (by omega))

/-- The walk of an exponential mean from a place within the first window on: the sum so far is
completed, and what comes after the window is left to the later steps. -/
theorem walk_smoothStep {period : Nat} (k : α) {place : Nat} (hfilling : place < period)
    (total mean : α) (rest : List α) (hlong : period ≤ place + rest.length)
    (hplace : place + rest.length ≤ maxCount) :
    let first := (rest.take (period - place)).foldl (· + ·) total / Scalar.ofCount period
    walk (smoothStep period k) place (total, mean) rest =
      .ok (List.replicate (period - 1 - place) none ++
        (first :: Average.smoothFrom k first (rest.drop (period - place))).map some) := by
  induction rest generalizing place total with
  | nil => exact absurd hlong (Nat.not_le_of_lt hfilling)
  | cons v rest ih =>
    intro first
    rw [List.length_cons] at hlong hplace
    have hlast : minus period 1 = .ok (period - 1) := minus_eq_ok (by omega)
    by_cases hnext : place + 1 < period
    · have hstep : smoothStep period k place (total, mean) v = .ok ((total + v, mean), none) := by
        rw [smoothStep, hlast, ok_bind, if_pos (by omega)]
        rfl
      have hwindow : period - place = period - (place + 1) + 1 := by omega
      have hbefore : period - 1 - place = period - 1 - (place + 1) + 1 := by omega
      have hfirst : first = (rest.take (period - (place + 1))).foldl (· + ·) (total + v) /
          Scalar.ofCount period := by
        change ((v :: rest).take (period - place)).foldl (· + ·) total / _ = _
        rw [hwindow, List.take_succ_cons, List.foldl_cons]
      rw [walk_cons hstep (by omega) (ih hnext (total + v) (by omega) (by omega)), hfirst, hwindow,
        List.drop_succ_cons, hbefore, List.replicate_succ, List.cons_append]
    · have hplaceLast : place = period - 1 := by omega
      have hstep : smoothStep period k place (total, mean) v =
          .ok ((total + v, (total + v) / Scalar.ofCount period),
            some ((total + v) / Scalar.ofCount period)) := by
        rw [smoothStep, hlast, ok_bind, if_neg (by omega), ok_bind, if_pos hplaceLast]
        rfl
      have hwindow : period - place = 1 := by omega
      have hbefore : period - 1 - place = 0 := by omega
      have hfirst : first = (total + v) / Scalar.ofCount period := by
        change ((v :: rest).take (period - place)).foldl (· + ·) total / _ = _
        rw [hwindow, List.take_succ_cons, List.take_zero, List.foldl_cons, List.foldl_nil]
      have hlater := walk_smoothStep_later (by omega) k (show period ≤ place + 1 by omega)
        (total + v) ((total + v) / Scalar.ofCount period) rest (by omega)
      rw [walk_cons hstep (by omega) hlater, hfirst, hwindow, hbefore, List.replicate_zero,
        List.nil_append, List.drop_succ_cons, List.drop_zero, List.map_cons]

theorem exponential_eq_ok (period : Nat) {values : List α} (hvalues : values.length ≤ maxCount) :
    exponential period values = .ok (Average.exponential period values) := by
  have hplace : 0 + values.length ≤ maxCount := by rwa [Nat.zero_add]
  rw [exponential, Average.exponential]
  by_cases hzero : period = 0
  · rw [if_pos hzero, if_pos (.inl hzero)]
  rw [if_neg hzero]
  by_cases hshort : values.length < period
  · rw [if_pos (.inr hshort), walk_smoothStep_short _ _ _ (by omega) hplace]
  · rw [if_neg (by omega), walk_smoothStep _ (Nat.pos_of_ne_zero hzero) _ _ _ (by omega) hplace,
      Nat.sub_zero, Nat.sub_zero]
    rfl

/-! ### Relative strength -/

/-- All stretches of two neighbours. -/
def neighbours {β : Type} : List β → List (List β)
  | x :: y :: rest => [x, y] :: neighbours (y :: rest)
  | _ => []

/-- The change from the first of two neighbours to the second. -/
def change (pair : List α) : Except Fault α := do
  let after ← get pair 1
  let before ← get pair 0
  pure (after - before)

/-- An average moved by one part in `period` towards a new amount. -/
def smoothed (period : Nat) (average amount : α) : Except Fault α := do
  let rest ← minus period 1
  pure ((average * Scalar.ofCount rest + amount) / Scalar.ofCount period)

/-- The index at so many further changes, written to the places after theirs. -/
def follow (period : Nat) (gains losses : List α) :
    Nat → Nat → Strength.Averages α → List (Option α) → Except Fault (List (Option α))
  | 0, _, _, entries => .ok entries
  | steps + 1, place, a, entries => do
    let rise ← get gains place
    let gain ← smoothed period a.gain rise
    let fall ← get losses place
    let loss ← smoothed period a.loss fall
    let target ← plus place 1
    let entries ← put entries target (some (Strength.Averages.index ⟨gain, loss⟩))
    follow period gains losses steps (place + 1) ⟨gain, loss⟩ entries

/-- The relative strength at every close. -/
def strength (period : Nat) (closes : List α) : Except Fault (List (Option α)) :=
  if period = 0 ∨ closes.length ≤ period then .ok (closes.map fun _ => none)
  else do
    let moves ← (neighbours closes).mapM change
    let gains := moves.map Strength.rise
    let losses := moves.map fun m => Strength.rise (-m)
    let rises ← front gains period
    let falls ← front losses period
    let first : Strength.Averages α :=
      ⟨Average.sum rises / Scalar.ofCount period, Average.sum falls / Scalar.ofCount period⟩
    let entries ← put (closes.map fun _ => none) period (some first.index)
    follow period gains losses (gains.length - period) period first entries

/-- The changes are those between neighbours. -/
theorem mapM_change_eq_ok (closes : List α) :
    (neighbours closes).mapM change = .ok (Strength.changes closes) := by
  fun_induction neighbours closes with
  | case1 x y rest ih =>
    have hchange : change [x, y] = .ok (y - x) := rfl
    rw [List.mapM_cons, hchange, ok_bind, ih, ok_bind, Strength.changes]
    rfl
  | case2 row h =>
    cases row with
    | nil => rfl
    | cons x rest =>
      cases rest with
      | nil => rfl
      | cons y rest => exact absurd rfl (h x y rest)

theorem smoothed_eq_ok {period : Nat} (hpos : 0 < period) (average amount : α) :
    smoothed period average amount = .ok (Strength.smoothed period average amount) := by
  rw [smoothed, minus_eq_ok hpos]
  rfl

/-- The averages that follow some changes begin with those before them. -/
theorem follow_eq_cons (period : Nat) (a : Strength.Averages α) (moves : List α) :
    a.follow period moves = a :: (a.follow period moves).tail := by
  cases moves <;> rfl

/-- Every further change fills the first place that is still empty. -/
theorem follow_eq_ok {period : Nat} (hpos : 0 < period) {moves : List α} (steps place : Nat)
    (a : Strength.Averages α) {entries : List (Option α)} (hmoves : place + steps = moves.length)
    (hcount : moves.length ≤ maxCount) (hentries : entries.length = place + 1) :
    follow period (moves.map Strength.rise) (moves.map fun m => Strength.rise (-m)) steps place a
        (entries ++ List.replicate steps none) =
      .ok (entries ++ ((a.follow period (moves.drop place)).tail.map fun a => some a.index)) := by
  induction steps generalizing place a entries with
  | zero =>
    rw [List.drop_eq_nil_of_le (by omega)]
    rfl
  | succ steps ih =>
    have hplace : place < moves.length := by omega
    have hrise : get (moves.map Strength.rise) place = .ok (Strength.rise moves[place]) := by
      rw [get_eq_ok (by rwa [List.length_map]), List.getElem_map]
    have hfall : get (moves.map fun m => Strength.rise (-m)) place =
        .ok (Strength.rise (-moves[place])) := by
      rw [get_eq_ok (by rwa [List.length_map]), List.getElem_map]
    have hput := put_append entries (some (a.step period moves[place]).index) none
      (List.replicate steps none)
    rw [hentries] at hput
    have hfilled : (entries ++ [some (a.step period moves[place]).index]).length =
        place + 1 + 1 := by
      rw [List.length_append, hentries, List.length_singleton]
    have hafter := follow_eq_cons period (a.step period moves[place]) (moves.drop (place + 1))
    rw [follow, hrise, ok_bind, smoothed_eq_ok hpos, ok_bind, hfall, ok_bind, smoothed_eq_ok hpos,
      ok_bind, plus_eq_ok (by omega), ok_bind, List.replicate_succ]
    change (put _ _ (some (a.step period moves[place]).index) >>= fun entries =>
      follow period _ _ steps (place + 1) (a.step period moves[place]) entries) = _
    rw [hput, ok_bind, List.append_cons, ih (place + 1) _ (by omega) hfilled,
      List.drop_eq_getElem_cons hplace, Strength.Averages.follow, List.tail_cons, hafter,
      List.tail_cons, List.map_cons, ← List.append_cons]

theorem strength_eq_ok (period : Nat) {closes : List α} (hcloses : closes.length ≤ maxCount) :
    strength period closes = .ok (Strength.history period closes) := by
  have hlength := Strength.length_changes closes
  rw [strength, Strength.history]
  split
  · rfl
  · rename_i h
    have hmoves : period ≤ (Strength.changes closes).length := by omega
    have hfront (f : α → α) : front ((Strength.changes closes).map f) period =
        .ok (((Strength.changes closes).take period).map f) := by
      rw [front_eq_ok (by rwa [List.length_map]), List.map_take]
    -- Of as many empty places as there are closes, the first `period` stay empty.
    have hempty : (closes.map fun _ => (none : Option α)) = List.replicate period none ++
        none :: List.replicate ((Strength.changes closes).length - period) none := by
      rw [List.map_const', ← List.replicate_succ, List.replicate_append_replicate]
      congr 1
      omega
    have hput (entry : Option α) := put_append (List.replicate period none) entry none
      (List.replicate ((Strength.changes closes).length - period) none)
    rw [List.length_replicate] at hput
    have hfilled (entry : Option α) :
        (List.replicate period none ++ [entry]).length = period + 1 := by
      rw [List.length_append, List.length_replicate, List.length_singleton]
    rw [mapM_change_eq_ok, ok_bind]
    dsimp only
    rw [hfront, ok_bind, hfront, ok_bind, hempty, hput, ok_bind, List.length_map, List.append_cons,
      follow_eq_ok (by omega) _ _ _ (by omega) (by omega) (hfilled _), ← List.append_cons]
    have hfirst := follow_eq_cons period (Strength.Averages.first period (Strength.changes closes))
      ((Strength.changes closes).drop period)
    rw [hfirst, List.map_cons]
    rfl

/-! ### Indicators -/

/-- The value of an indicator at every place of a row of closes and volumes. -/
def values (i : Indicator) (closes volumes : List α) : Except Fault (List (Option α)) :=
  match i.kind with
  | .rsi => strength i.period closes
  | .sma => rolling i.period closes
  | .ema => exponential i.period closes
  | .avgVolume => rolling i.period volumes

/-- The value of an indicator at the end of a row of closes and volumes. -/
def value? (i : Indicator) (closes volumes : List α) : Except Fault (Option α) :=
  match i.kind with
  | .rsi => (fun entries => entries.getLast?.join) <$> strength i.period closes
  | .sma => mean i.period closes
  | .ema => (fun entries => entries.getLast?.join) <$> exponential i.period closes
  | .avgVolume => mean i.period volumes

/-- The history of an indicator, one point per bar. -/
def history (i : Indicator) (bars : List (Bar α)) : Except Fault (List (Point α)) :=
  (fun entries => List.zipWith (fun b v => ⟨b.time, v⟩) bars entries) <$>
    values i (bars.map Bar.close) (bars.map Bar.volume)

theorem value?_eq_ok (i : Indicator) {closes volumes : List α}
    (hcloses : closes.length ≤ maxCount) :
    value? i closes volumes = .ok (i.value? closes volumes) := by
  rw [value?, Indicator.value?]
  cases i.kind with
  | rsi =>
    dsimp only
    rw [strength_eq_ok i.period hcloses]
    rfl
  | sma => exact mean_eq_ok i.period closes
  | ema =>
    dsimp only
    rw [exponential_eq_ok i.period hcloses]
    rfl
  | avgVolume => exact mean_eq_ok i.period volumes

theorem values_eq_ok (i : Indicator) {closes volumes : List α} (hcloses : closes.length ≤ maxCount)
    (hvolumes : volumes.length ≤ maxCount) :
    values i closes volumes = .ok (i.values closes volumes) := by
  rw [values, Indicator.values]
  cases i.kind with
  | rsi => exact strength_eq_ok i.period hcloses
  | sma => exact rolling_eq_ok i.period hcloses
  | ema => exact exponential_eq_ok i.period hcloses
  | avgVolume => exact rolling_eq_ok i.period hvolumes

theorem history_eq_ok (i : Indicator) {bars : List (Bar α)} (hbars : bars.length ≤ maxCount) :
    history i bars = .ok (i.history bars) := by
  rw [history, values_eq_ok i (by rwa [List.length_map]) (by rwa [List.length_map])]
  rfl

end Position

namespace Indicator

/-- The row that an indicator reads. -/
def row {β : Type} (i : Indicator) (closes volumes : List β) : List β :=
  match i.kind with
  | .rsi | .sma | .ema => closes
  | .avgVolume => volumes

variable {α : Type} [Scalar α]

/-- An indicator has a value where its period is not zero and its row is long enough. -/
theorem isSome_value?_iff_row {i : Indicator} {closes volumes : List α} :
    (i.value? closes volumes).isSome ↔
      1 ≤ i.period ∧ i.barsNeeded ≤ (i.row closes volumes).length := by
  unfold value? barsNeeded row
  cases i.kind with
  | rsi => exact Strength.isSome_getLast?_history_iff
  | sma => exact Average.isSome_mean?_iff
  | ema => exact Average.isSome_getLast?_exponential_iff
  | avgVolume => exact Average.isSome_mean?_iff

/-- A point has a value where the period is not zero and the bars up to there are enough. -/
theorem isSome_history_iff {i : Indicator} {bars : List (Bar α)} {n : Nat} (hn : n < bars.length) :
    ((i.history bars)[n]?.bind Point.value).isSome ↔ 1 ≤ i.period ∧ i.barsNeeded ≤ n + 1 := by
  have hclose : n < (bars.map Bar.close).length := by rwa [List.length_map]
  have hlength : (bars.map Bar.volume).length = (bars.map Bar.close).length := by
    rw [List.length_map, List.length_map]
  have htake : ((bars.map Bar.close).take (n + 1)).length = n + 1 := by
    rw [List.length_take]
    omega
  rw [getElem?_history i hn, Option.bind_some, isSome_getElem?_values i hclose hlength,
    isSome_value?_iff (by rw [List.length_take, List.length_take, hlength]), htake]
  rfl

/-- Computed by position, with every entry, sum and difference checked, the values and the histories
are the same, whatever the period, the numbers and the lengths of the rows. There is a value exactly
where the period is not zero and the row is long enough: as long as the period for means, and one
more for the relative strength. A point has one exactly where the bars up to it are so many, so that
every later point has one too, and with a period of zero none has. -/
theorem checked_with_exact_warm_up (i : Indicator) {closes volumes : List α} {bars : List (Bar α)}
    (hcloses : closes.length ≤ maxCount) (hbars : bars.length ≤ maxCount) :
    Position.value? i closes volumes = .ok (i.value? closes volumes) ∧
    Position.history i bars = .ok (i.history bars) ∧
    (i.history bars).length = bars.length ∧
    ((i.value? closes volumes).isSome ↔
      1 ≤ i.period ∧ i.barsNeeded ≤ (i.row closes volumes).length) ∧
    (∀ n < bars.length, ((i.history bars)[n]?.bind Point.value).isSome ↔
      1 ≤ i.period ∧ i.barsNeeded ≤ n + 1) ∧
    (∀ m n, m ≤ n → n < bars.length → ((i.history bars)[m]?.bind Point.value).isSome →
      ((i.history bars)[n]?.bind Point.value).isSome) ∧
    (i.period = 0 → i.value? closes volumes = none ∧ ∀ p ∈ i.history bars, p.value = none) := by
  refine ⟨Position.value?_eq_ok i hcloses, Position.history_eq_ok i hbars, i.length_history bars,
    isSome_value?_iff_row, fun n hn => isSome_history_iff hn, fun m n hmn hn => ?_, fun hzero => ?_⟩
  · rw [isSome_history_iff hn, isSome_history_iff (Nat.lt_of_le_of_lt hmn hn)]
    exact fun ⟨hpos, hneeded⟩ => ⟨hpos, by omega⟩
  · constructor
    · rw [← Option.not_isSome_iff_eq_none, isSome_value?_iff_row]
      omega
    · intro p hp
      obtain ⟨n, hn, rfl⟩ := List.mem_iff_getElem.1 hp
      have hbar : n < bars.length := by rwa [length_history] at hn
      have hnone := (@isSome_history_iff _ _ i bars n hbar).not.2 (by omega)
      rw [List.getElem?_eq_getElem hn, Option.bind_some] at hnone
      exact Option.not_isSome_iff_eq_none.1 hnone

/-- The greatest period that a count can hold, over no close and over two bars, one of them with an
undefined close; and a period that the two bars just fill. -/
theorem checked_with_exact_warm_up_greatest :
    let bar (hour : Fin 24) (close : Float) : Bar Float :=
      ⟨⟨2024, 1, 1, hour, 0, 0, by decide, by revert hour; decide⟩, close, close, close, close, 1⟩
    let bars := [bar 0 0.1, bar 1 (0 / 0)]
    let greatest : Indicator := ⟨.rsi, maxCount⟩
    let filled : Indicator := ⟨.ema, 2⟩
    Position.value? greatest ([] : List Float) [] = .ok none ∧
      Position.history greatest bars = .ok (greatest.history bars) ∧
      ((greatest.history bars)[1]?.bind Point.value).isSome = false ∧
      Position.history filled bars = .ok (filled.history bars) ∧
      ((filled.history bars)[0]?.bind Point.value).isSome = false ∧
      ((filled.history bars)[1]?.bind Point.value).isSome = true := by
  intro bar bars greatest filled
  obtain ⟨hvalue, hhistory, -, hsome, hpoint, -⟩ :=
    @checked_with_exact_warm_up Float _ greatest [] [] bars (by decide) (by decide)
  obtain ⟨-, hfilled, -, -, hfilledPoint, -⟩ :=
    @checked_with_exact_warm_up Float _ filled [] [] bars (by decide) (by decide)
  have hnone : greatest.value? ([] : List Float) [] = none :=
    Option.not_isSome_iff_eq_none.1 (hsome.not.2 (by decide))
  rw [hnone] at hvalue
  exact ⟨hvalue, hhistory, Bool.eq_false_iff.2 ((hpoint 1 (by decide)).not.2 (by decide)), hfilled,
    Bool.eq_false_iff.2 ((hfilledPoint 0 (by decide)).not.2 (by decide)),
    (hfilledPoint 1 (by decide)).2 (by decide)⟩

end Indicator

end TradeRules
