import TradeRules.Number.Scalar
import TradeRules.Market.Moment

/-!
# Price bars

One bar holds the four prices and the volume of one moment. A bar may hold numbers that are not
finite; `firstNonFinite?` names the first of them.
-/

namespace TradeRules

/-- The numbers of a bar. -/
inductive BarField where
  | opening
  | high
  | low
  | close
  | volume
  deriving DecidableEq, Repr

/-- The fields in the order in which a bar is written. -/
def BarField.all : List BarField := [.opening, .high, .low, .close, .volume]

/-- The name of a field. -/
def BarField.name : BarField → String
  | .opening => "open"
  | .high => "high"
  | .low => "low"
  | .close => "close"
  | .volume => "volume"

/-- The trading of one moment. -/
structure Bar (α : Type) where
  /-- When the bar was taken. -/
  time : Moment
  /-- The first price. -/
  opening : α
  /-- The highest price. -/
  high : α
  /-- The lowest price. -/
  low : α
  /-- The last price. -/
  close : α
  /-- The number of shares traded. -/
  volume : α
  deriving Repr

namespace Bar

variable {α : Type}

/-- The number in a field. -/
def get (b : Bar α) : BarField → α
  | .opening => b.opening
  | .high => b.high
  | .low => b.low
  | .close => b.close
  | .volume => b.volume

/-- The first field, in the order of writing, whose number is not finite. -/
def firstNonFinite? [Scalar α] (b : Bar α) : Option BarField :=
  BarField.all.find? fun f => !Scalar.isFinite (b.get f)

end Bar

end TradeRules
