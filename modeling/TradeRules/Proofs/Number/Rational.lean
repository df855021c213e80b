import Mathlib
import TradeRules.Number.Scalar

/-!
# Exact numbers

The rationals are numbers that rules can be evaluated in, with nothing ever rounded: statements about
exact arithmetic are statements about this instance. All of them are finite.
-/

namespace TradeRules

open Number

/-- Rationals as numbers of rules. -/
instance : Scalar ℚ where
  ofCount n := n
  ofScientific negative d e :=
    let x : ℚ := d.digits * 10 ^ (e - d.places)
    if negative then -x else x
  less x y := x < y
  atMost x y := x ≤ y
  same x y := x = y
  isFinite _ := true
  floor x := ⌊x⌋
  toCount x := min ⌊x⌋.toNat maxCount
  spell x := (toString x).toList

namespace Scalar

@[simp] theorem ofCount_rat (n : Nat) : (ofCount n : ℚ) = n := rfl

@[simp] theorem zero_rat : (zero : ℚ) = 0 := Nat.cast_zero

@[simp] theorem less_rat {x y : ℚ} : less x y = true ↔ x < y := decide_eq_true_iff

@[simp] theorem same_rat {x y : ℚ} : same x y = true ↔ x = y := decide_eq_true_iff

end Scalar

end TradeRules
