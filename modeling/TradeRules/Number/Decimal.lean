/-!
# Decimal numerals

A magnitude in positional notation: its digits read as one natural, and how many of them stand
after the point. Signs, exponents and the words for what is not a number belong to the
readers and writers that use this form.
-/

namespace TradeRules.Number

-- A power means one thing here, whichever other powers a user of this module has imported.
@[default_instance 20000]
scoped instance (priority := 2000) natPow {α : Type} [NatPow α] : Pow α Nat := instPowNat

/-- The magnitude `digits / 10 ^ places`. -/
@[ext]
structure Decimal where
  /-- All digits, before and after the point, as one natural. -/
  digits : Nat
  /-- How many of the digits stand after the point. -/
  places : Nat
  deriving DecidableEq, Repr

namespace Decimal

/-- The natural that a row of digits spells. -/
def value (cs : List Char) : Nat := Nat.ofDigitChars 10 cs 0

/-- The magnitude spelled by the digits before and after a point. -/
def ofParts (whole fraction : List Char) : Decimal :=
  ⟨value (whole ++ fraction), fraction.length⟩

/-- The digits of a natural, filled up with leading zeros to a given width. -/
def padded (width n : Nat) : List Char :=
  let ds := Nat.toDigits 10 n
  List.replicate (width - ds.length) '0' ++ ds

/-- The digits before the point: at least one, and no needless zero. -/
def wholeText (d : Decimal) : List Char := Nat.toDigits 10 (d.digits / 10 ^ d.places)

/-- The digits after the point, exactly `places` of them. -/
def fractionText (d : Decimal) : List Char :=
  if d.places = 0 then [] else padded d.places (d.digits % 10 ^ d.places)

/-- Positional notation: the point is written only before at least one digit. -/
def spell (d : Decimal) : List Char :=
  if d.places = 0 then d.wholeText else d.wholeText ++ '.' :: d.fractionText

/-- The same digits without the zeros that end the fraction. -/
def trimZeros : Nat → Nat → Decimal
  | digits, 0 => ⟨digits, 0⟩
  | digits, places + 1 =>
    if digits % 10 = 0 then trimZeros (digits / 10) places else ⟨digits, places + 1⟩

/-- Dropping final zeros keeps the value. -/
theorem trimZeros_value (digits places : Nat) :
    (trimZeros digits places).digits * 10 ^ places =
      digits * 10 ^ (trimZeros digits places).places := by
  fun_induction trimZeros digits places with
  | case1 => rfl
  | case2 digits places h ih =>
    rw [Nat.pow_succ, ← Nat.mul_assoc, ih, Nat.mul_right_comm]
    congr 1
    omega
  | case3 => rfl

example : (Decimal.mk 1234 2).spell = "12.34".toList := by decide
example : (Decimal.mk 5 3).spell = "0.005".toList := by decide
example : Decimal.ofParts "12".toList "340".toList = ⟨12340, 3⟩ := by decide

end Decimal

end TradeRules.Number
