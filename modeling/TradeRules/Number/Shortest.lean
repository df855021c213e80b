import TradeRules.Number.Binary64

/-!
# The shortest decimal that reads back

For one digit, two digits and so on up to seventeen, the two neighbours of a magnitude on that
decimal grid are tried; the first grid on which one of them is read as the same double
wins. Of two hits the nearer is taken, and of two equally near the greater. Should no grid
win, the exact expansion is written. Either way the result reads back, which is
`ofDecimal_shortest`.
-/

namespace TradeRules.Number.Binary64

/-- Whether a magnitude is less than `10 ^ power`. -/
def isBelow (w : Nat) : Int → Bool
  | .ofNat n => units w < one * 10 ^ n
  | .negSucc n => units w * 10 ^ (n + 1) < one

/-- The power of ten just above a positive magnitude: it is less than `10 ^ (order w)`, and
not less than a tenth of that. The power of two below it leaves two powers to choose from. -/
def order (w : Nat) : Int :=
  let guess := (((units w).log2 : Int) - halvings) * 30103 / 100000 + 1
  if isBelow w guess then guess else guess + 1

/-- The multiple `steps` of the grid unit `10 ^ (-places)`, in positional form. -/
def gridPoint (steps : Nat) : Int → Decimal
  | .ofNat places => Decimal.trimZeros steps places
  | .negSucc k => ⟨steps * 10 ^ (k + 1), 0⟩

/-- A magnitude in grid units, as numerator and denominator. -/
def inGrid (w : Nat) : Int → Nat × Nat
  | .ofNat places => (units w * 10 ^ places, one)
  | .negSucc k => (units w, one * 10 ^ (k + 1))

/-- The better of a word's two neighbours on one grid, if one of them reads back. -/
def onGrid? (w : Nat) (places : Int) : Option Decimal :=
  let (num, den) := inGrid w places
  let below := gridPoint (num / den) places
  let above := gridPoint (num / den + 1) places
  if ofDecimal below = w then
    if ofDecimal above = w ∧ den ≤ 2 * (num % den) then some above else some below
  else if ofDecimal above = w then some above
  else none

/-- The exact expansion of a magnitude. -/
def exact (w : Nat) : Decimal := Decimal.trimZeros (units w * 5 ^ halvings) halvings

/-- The decimal with the fewest digits that is read as a given finite word. -/
def shortest (w : Nat) : Decimal :=
  if w = 0 then ⟨0, 0⟩
  else
    let coarsest := 1 - order w
    ((List.range 17).findSome? fun n : Nat => onGrid? w (coarsest + n)).getD (exact w)

theorem ofDecimal_of_onGrid? {w : Nat} {places : Int} {d : Decimal}
    (h : onGrid? w places = some d) : ofDecimal d = w := by
  simp only [onGrid?] at h
  split at h
  · rename_i hb
    split at h
    · rename_i ha
      cases h
      exact ha.1
    · cases h
      exact hb
  · split at h
    · rename_i ha
      cases h
      exact ha
    · cases h

/-- The exact expansion reads back. -/
theorem ofDecimal_exact {w : Nat} (hw : w < infinityWord) : ofDecimal (exact w) = w := by
  apply nearestWord_of_units hw (Nat.pow_pos (by decide))
  have h := Decimal.trimZeros_value (units w * 5 ^ halvings) halvings
  rw [show (10 : Nat) ^ halvings = one * 5 ^ halvings by rw [one, ← Nat.mul_pow],
    ← Nat.mul_assoc, Nat.mul_right_comm (units w)] at h
  exact Nat.eq_of_mul_eq_mul_right (Nat.pow_pos (by decide)) h

/-- The shortest decimal of a finite word reads back. -/
theorem ofDecimal_shortest {w : Nat} (hw : w < infinityWord) : ofDecimal (shortest w) = w := by
  unfold shortest
  split
  · rename_i h
    subst h
    exact nearestWord_of_units hw (by decide) (by simp [units, significand])
  · dsimp only
    cases h : (List.range 17).findSome? fun n : Nat => onGrid? w (1 - order w + n) with
    | none => rw [Option.getD_none, ofDecimal_exact hw]
    | some d =>
      obtain ⟨n, _, hn⟩ := List.exists_of_findSome?_eq_some h
      rw [Option.getD_some, ofDecimal_of_onGrid? hn]

end TradeRules.Number.Binary64
