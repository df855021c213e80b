import TradeRules.Indicator.Average

/-!
# Relative strength

Wilder's index compares the average rise of a price with its average fall. Both averages start as
plain means over the first `period` changes and then move by one part in `period` towards each
later change. The history has one entry per price, absent for the first `period` prices.
-/

namespace TradeRules.Strength

variable {α : Type} [Scalar α]

/-- The change to each price from the one before it. -/
def changes : List α → List α
  | x :: y :: rest => (y - x) :: changes (y :: rest)
  | _ => []

/-- A change if it is a rise, and zero otherwise. -/
def rise (change : α) : α := if Scalar.less Scalar.zero change then change else Scalar.zero

/-- The average rise and fall of some stretch of changes. -/
structure Averages (α : Type) where
  /-- The average rise. -/
  gain : α
  /-- The average fall, as a magnitude. -/
  loss : α
  deriving Repr

/-- The index from 0 to 100: 100 where nothing fell, and 50 where nothing moved. -/
def Averages.index (a : Averages α) : α :=
  if Scalar.same a.loss Scalar.zero then
    if Scalar.same a.gain Scalar.zero then Scalar.ofCount 50 else Scalar.ofCount 100
  else
    Scalar.ofCount 100 - Scalar.ofCount 100 / (Scalar.ofCount 1 + a.gain / a.loss)

/-- The plain averages of the first `period` changes. -/
def Averages.first (period : Nat) (moves : List α) : Averages α where
  gain := Average.sum ((moves.take period).map rise) / Scalar.ofCount period
  loss := Average.sum ((moves.take period).map fun m => rise (-m)) / Scalar.ofCount period

/-- An average moved by one part in `period` towards a new amount. -/
def smoothed (period : Nat) (average amount : α) : α :=
  (average * Scalar.ofCount (period - 1) + amount) / Scalar.ofCount period

/-- The averages after one more change. -/
def Averages.step (period : Nat) (a : Averages α) (move : α) : Averages α where
  gain := smoothed period a.gain (rise move)
  loss := smoothed period a.loss (rise (-move))

/-- The averages before and after each of a row of changes. -/
def Averages.follow (period : Nat) (a : Averages α) : List α → List (Averages α)
  | [] => [a]
  | move :: rest => a :: Averages.follow period (a.step period move) rest

/-- The index at every price. -/
def history (period : Nat) (closes : List α) : List (Option α) :=
  if period = 0 ∨ closes.length ≤ period then closes.map fun _ => none
  else
    let moves := changes closes
    List.replicate period none ++
      ((Averages.first period moves).follow period (moves.drop period)).map fun a => some a.index

theorem length_changes (closes : List α) : (changes closes).length = closes.length - 1 := by
  fun_induction changes closes with
  | case1 x y rest ih => simp [ih]
  | case2 xs h =>
    match xs, h with
    | [], _ => rfl
    | [_], _ => rfl
    | x :: y :: r, h => exact absurd rfl (h x y r)

theorem Averages.length_follow (period : Nat) (a : Averages α) (moves : List α) :
    (a.follow period moves).length = moves.length + 1 := by
  induction moves generalizing a with
  | nil => rfl
  | cons m rest ih => simp [Averages.follow, ih]

/-- The history has one entry per price. -/
theorem length_history (period : Nat) (closes : List α) :
    (history period closes).length = closes.length := by
  unfold history
  split
  · simp
  · simp only [List.length_append, List.length_replicate, List.length_map,
      Averages.length_follow, List.length_drop, length_changes]
    omega

end TradeRules.Strength
