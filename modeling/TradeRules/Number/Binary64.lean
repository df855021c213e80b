import TradeRules.Number.Rounding
import TradeRules.Number.Decimal

/-!
# Binary64 magnitudes

A finite double without its sign is a whole number of units of `2 ^ (-1074)`, and its 63 low
bits, read as one natural (its *word*), number the magnitudes in increasing order.
`nearestWord` rounds a positive quotient to a word, ties to even; the word of infinity follows
that of the greatest finite magnitude, so that overflow is a minimum. `nearestWord_of_units`
says that a quotient which is a double already is kept.
-/

namespace TradeRules.Number.Binary64

/-- The word of infinity, one above that of the greatest finite magnitude. -/
def infinityWord : Nat := 0x7FF * 2 ^ 52

/-- The integer significand of a word, with the leading bit of a normal number. -/
def significand (w : Nat) : Nat := if w < 2 ^ 52 then w else 2 ^ 52 + w % 2 ^ 52

/-- How often the significand is doubled. -/
def scale (w : Nat) : Nat := w / 2 ^ 52 - 1

/-- The magnitude of a word, counted in units. -/
def units (w : Nat) : Nat := significand w * 2 ^ scale w

/-- How often one is halved down to the unit, the least positive magnitude. -/
def halvings : Nat := 1074

/-- One, counted in units. -/
def one : Nat := 2 ^ halvings

/-- The word nearest to `num / den`, ties to the even word, and infinity on overflow. -/
def nearestWord (num den : Nat) : Nat :=
  let n := num * one
  let s := (n / den).log2 - 52
  min (s * 2 ^ 52 + nearestEven n (den * 2 ^ s)) infinityWord

/-- The word nearest to a decimal magnitude. -/
def ofDecimal (d : Decimal) : Nat := nearestWord d.digits (10 ^ d.places)

/-- The word nearest to a decimal magnitude times a power of ten. Powers that are certain to
overflow or to vanish are not formed. -/
def ofScientific (mantissa : Decimal) (exponent : Int) : Nat :=
  let shift := exponent - mantissa.places
  if exponent = 0 then ofDecimal mantissa
  else if mantissa.digits = 0 then 0
  else if 400 < shift then infinityWord
  else if shift < -(400 + mantissa.digits.log2 : Int) then 0
  else
    match shift with
    | .ofNat k => nearestWord (mantissa.digits * 10 ^ k) 1
    | .negSucc k => nearestWord mantissa.digits (10 ^ (k + 1))

/-- A word is its significand plus the steps of its exponent. -/
theorem scale_add_significand (w : Nat) : scale w * 2 ^ 52 + significand w = w := by
  unfold scale significand
  split <;> omega

/-- Where the exponent is above the least, the significand has its leading bit. -/
theorem le_significand {w : Nat} (h : 0 < scale w) : 2 ^ 52 ≤ significand w := by
  unfold scale at h
  unfold significand
  split <;> omega

theorem significand_lt (w : Nat) : significand w < 2 ^ 53 := by
  unfold significand
  split <;> omega

/-- The exponent can be read off the size of the magnitude. -/
theorem log2_units (w : Nat) : (units w).log2 - 52 = scale w := by
  by_cases hw : significand w = 0
  · have : scale w = 0 := by
      by_cases h : 0 < scale w
      · have := le_significand h; omega
      · omega
    simp [units, hw, this]
  · have hlt := significand_lt w
    have hne : units w ≠ 0 := by
      unfold units
      exact Nat.mul_ne_zero hw (Nat.ne_of_gt (Nat.two_pow_pos _))
    have hup : units w < 2 ^ (53 + scale w) := by
      rw [Nat.pow_add]
      exact Nat.mul_lt_mul_of_pos_right hlt (Nat.two_pow_pos _)
    have hup' := (Nat.log2_lt hne).2 hup
    by_cases h : 0 < scale w
    · have hlow : 2 ^ (52 + scale w) ≤ units w := by
        rw [Nat.pow_add]
        exact Nat.mul_le_mul_right _ (le_significand h)
      have := (Nat.le_log2 hne).2 hlow
      omega
    · omega

/-- A quotient that is the magnitude of a finite word is read as that word. -/
theorem nearestWord_of_units {w num den : Nat} (hw : w < infinityWord) (hden : 0 < den)
    (h : num * one = units w * den) : nearestWord num den = w := by
  have hs : (num * one / den).log2 - 52 = scale w := by
    rw [h, Nat.mul_div_cancel _ hden, log2_units]
  have hr : nearestEven (num * one) (den * 2 ^ scale w) = significand w := by
    rw [h, units, show significand w * 2 ^ scale w * den = significand w * (den * 2 ^ scale w) by
      rw [Nat.mul_assoc, Nat.mul_comm (2 ^ scale w)]]
    exact nearestEven_mul _ (Nat.mul_pos hden (Nat.two_pow_pos _))
  simp only [nearestWord, hs, hr, scale_add_significand]
  omega

/-- The word of a double: its bits without the sign. -/
def wordOf (x : Float) : Nat := x.toBits.toNat % 2 ^ 63

/-- Whether the sign bit of a double is set. -/
def isNegative (x : Float) : Bool := 2 ^ 63 ≤ x.toBits.toNat

/-- The double with a given word and sign. -/
def ofWord (negative : Bool) (w : Nat) : Float :=
  Float.ofBits (UInt64.ofNat (if negative then 2 ^ 63 + w else w))

/-- The greatest double that is no greater and is whole; words that are not finite are kept. -/
def floor (x : Float) : Float :=
  let w := wordOf x
  if infinityWord ≤ w then x
  else
    let whole := units w / one
    if isNegative x then
      if units w % one = 0 then x else ofWord true (nearestWord (whole + 1) 1)
    else ofWord false (nearestWord whole 1)

example : (ofWord false (ofDecimal ⟨1, 1⟩)).toBits = (0.1 : Float).toBits := by decide +kernel
example : (ofWord false (nearestWord (10 ^ 400) 1)).toBits = (1.0 / 0.0 : Float).toBits := by
  decide +kernel
example : (floor (-0.5)).toBits = (-1.0 : Float).toBits := by decide +kernel

end TradeRules.Number.Binary64
