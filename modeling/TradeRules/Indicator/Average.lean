import TradeRules.Number.Scalar

/-!
# Moving averages

The mean of a window, and two ways to follow it through a history: the rolling mean keeps one sum
to which each value is added and from which the value that leaves the window is taken away; the
exponential mean starts from the mean of the first window and moves by a fixed share towards each
later value. A history has one entry per value, which is absent until the first window is full.
-/

namespace TradeRules.Average

variable {α : Type} [Scalar α]

/-- The sum of a row of numbers, added from the left. -/
def sum : List α → α
  | [] => Scalar.zero
  | x :: xs => xs.foldl (· + ·) x

/-- The mean of the last `period` values, if there are that many. -/
def mean? (period : Nat) (values : List α) : Option α :=
  if period = 0 ∨ values.length < period then none
  else some (sum (values.drop (values.length - period)) / Scalar.ofCount period)

/-- The means from the value after `seen` others on, given their sum within the window and the
values that are still to leave it. -/
def rollFrom (period : Nat) : Nat → α → List α → List α → List (Option α)
  | _, _, [], _ => []
  | seen, total, v :: rest, leaving =>
    if seen < period then
      let total := total + v
      (if seen + 1 = period then some (total / Scalar.ofCount period) else none) ::
        rollFrom period (seen + 1) total rest leaving
    else
      match leaving with
      | old :: leaving =>
        let total := total + v - old
        some (total / Scalar.ofCount period) :: rollFrom period (seen + 1) total rest leaving
      | [] => none :: rollFrom period (seen + 1) (total + v) rest []

/-- The rolling mean at every value. -/
def rolling (period : Nat) (values : List α) : List (Option α) :=
  if period = 0 then values.map fun _ => none
  else rollFrom period 0 Scalar.zero values values

/-- The share by which an exponential mean moves towards a new value. -/
def weight (period : Nat) : α :=
  Scalar.ofCount 2 / (Scalar.ofCount period + Scalar.ofCount 1)

/-- The exponential means at later values, given the one before them. -/
def smoothFrom (k : α) (previous : α) : List α → List α
  | [] => []
  | v :: rest =>
    let next := v * k + previous * (Scalar.ofCount 1 - k)
    next :: smoothFrom k next rest

/-- The mean of the first `period` values, summed from zero. -/
def seed (period : Nat) (values : List α) : α :=
  (values.take period).foldl (· + ·) Scalar.zero / Scalar.ofCount period

/-- The exponential mean at every value. -/
def exponential (period : Nat) (values : List α) : List (Option α) :=
  if period = 0 ∨ values.length < period then values.map fun _ => none
  else
    let first := seed period values
    List.replicate (period - 1) none ++
      (first :: smoothFrom (weight period) first (values.drop period)).map some

@[simp] theorem length_smoothFrom (k previous : α) (values : List α) :
    (smoothFrom k previous values).length = values.length := by
  induction values generalizing previous with
  | nil => rfl
  | cons v rest ih => simp [smoothFrom, ih]

/-- An exponential history has one entry per value. -/
theorem length_exponential (period : Nat) (values : List α) :
    (exponential period values).length = values.length := by
  unfold exponential
  split
  · simp
  · rename_i h
    simp only [List.length_append, List.length_replicate, List.length_map, List.length_cons,
      length_smoothFrom, List.length_drop]
    omega

theorem length_rollFrom (period seen : Nat) (total : α) (values leaving : List α) :
    (rollFrom period seen total values leaving).length = values.length := by
  fun_induction rollFrom period seen total values leaving with
  | case1 => rfl
  | case2 _ _ _ _ _ _ _ ih => simp [ih]
  | case3 _ _ _ _ _ _ _ _ ih => simp [ih]
  | case4 _ _ _ _ _ ih => simp [ih]

/-- A rolling history has one entry per value. -/
theorem length_rolling (period : Nat) (values : List α) :
    (rolling period values).length = values.length := by
  unfold rolling
  split
  · simp
  · exact length_rollFrom ..

end TradeRules.Average
