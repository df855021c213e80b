import TradeRules.Number.Numeral
import TradeRules.Number.Spelling

/-!
# The numbers that rules compute with

Indicators, expressions and sizing are written once over a type of numbers with the operations
below. Programs run on doubles; statements about exact arithmetic take another instance. No law
is asked of the operations, since those of doubles keep few.
-/

namespace TradeRules

open Number

/-- A type of numbers that a rule can be evaluated in. -/
class Scalar (α : Type) extends Add α, Sub α, Mul α, Div α, Neg α where
  /-- The number nearest to a count. -/
  ofCount : Nat → α
  /-- The number nearest to a decimal magnitude times a power of ten, below zero where the first
  argument says so; it need not be finite. -/
  ofScientific : Bool → Decimal → Int → α
  /-- The test for `x < y`. -/
  less : α → α → Bool
  /-- The test for `x ≤ y`. -/
  atMost : α → α → Bool
  /-- The test for equality of value. -/
  same : α → α → Bool
  /-- Whether a number is neither infinite nor undefined. -/
  isFinite : α → Bool
  /-- The greatest whole number that is not above a number. -/
  floor : α → α
  /-- The count left when the fraction is cut off, at least zero and at most `maxCount`. -/
  toCount : α → Nat
  /-- The plain text of a number. -/
  spell : α → List Char

namespace Scalar

variable {α : Type} [Scalar α]

/-- Zero. -/
def zero : α := ofCount 0

/-- The number nearest to a decimal with or without a minus sign. -/
def ofDecimal (negative : Bool) (d : Decimal) : α := ofScientific negative d 0

/-- The magnitude of a number. -/
def magnitude (x : α) : α := if less x zero then -x else x

/-- Whether a number is finite and has no fraction. -/
def isWhole (x : α) : Bool := isFinite x && same (floor x) x

/-- The text of a number. -/
def text (x : α) : String := String.ofList (spell x)

end Scalar

/-- The count of a double. -/
def Number.Binary64.toCount (x : Float) : Nat :=
  let w := wordOf x
  if isNegative x || infinityWord < w then 0 else min (units w / one) maxCount

/-- Doubles as numbers of rules. -/
instance : Scalar Float where
  ofCount n := Binary64.ofWord false (Binary64.nearestWord n 1)
  ofScientific negative d e := Binary64.ofWord negative (Binary64.ofScientific d e)
  less x y := x < y
  atMost x y := x ≤ y
  same x y := x == y
  isFinite x := Binary64.wordOf x < Binary64.infinityWord
  floor := Binary64.floor
  toCount := Binary64.toCount
  spell := Binary64.spell

end TradeRules
