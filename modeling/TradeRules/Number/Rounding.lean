/-!
# Rounding a quotient

A quotient of naturals is rounded to the nearest natural, and a half to the even neighbour.
Both the reading of decimals and the writing with fixed places rest on this one rule.
-/

namespace TradeRules.Number

/-- The natural nearest to `num / den`; exactly half way, the even one. -/
def nearestEven (num den : Nat) : Nat :=
  let whole := num / den
  let rest := num % den
  if 2 * rest < den then whole
  else if den < 2 * rest then whole + 1
  else whole + whole % 2

/-- A quotient that is whole is kept. -/
theorem nearestEven_mul (n : Nat) {den : Nat} (h : 0 < den) : nearestEven (n * den) den = n := by
  simp [nearestEven, Nat.mul_div_cancel n h, h]

/-- The rounded value is within half a unit of the quotient, or it is just half a unit away and
even. -/
theorem nearestEven_within_half (num : Nat) {den : Nat} (h : 0 < den) :
    (2 * (nearestEven num den * den) < 2 * num + den ∧
        2 * num < 2 * (nearestEven num den * den) + den) ∨
      nearestEven num den % 2 = 0 ∧
        (2 * (nearestEven num den * den) = 2 * num + den ∨
          2 * num = 2 * (nearestEven num den * den) + den) := by
  have hdiv : num = num / den * den + num % den := by
    rw [Nat.mul_comm]; exact (Nat.div_add_mod num den).symm
  have hlt := Nat.mod_lt num h
  unfold nearestEven
  generalize num / den = w at *
  generalize num % den = r at *
  subst hdiv
  dsimp only
  split
  · omega
  · split
    · rw [Nat.add_mul]; omega
    · have : w % 2 = 0 ∨ w % 2 = 1 := by omega
      rcases this with hw | hw <;>
        simp only [hw, Nat.add_zero, Nat.add_mul, Nat.one_mul, true_and] <;> omega

end TradeRules.Number
