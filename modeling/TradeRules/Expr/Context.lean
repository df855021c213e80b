import TradeRules.Expr.Vocabulary
import TradeRules.Indicator.History

/-!
# Where an expression is evaluated

A context is a series that has a newest bar whose numbers are all finite. It gives the properties of
that bar and the values of the indicators at it.
-/

namespace TradeRules

/-- Why a series gives no context. -/
inductive ContextError where
  /-- The series has no bar. -/
  | emptySeries (symbol : String)
  /-- A number of the newest bar is not finite. -/
  | malformedBar (symbol : String) (field : BarField)
  deriving DecidableEq, Repr

/-- The wording of the reason. -/
def ContextError.message : ContextError → String
  | .emptySeries symbol => "no price data for " ++ symbol
  | .malformedBar symbol field =>
    "latest bar for " ++ symbol ++ " has a non-numeric " ++ field.name

/-- A series with a sound newest bar. -/
structure Context (α : Type) [Scalar α] where
  /-- The price history. -/
  series : Series α
  /-- Its newest bar. -/
  current : Bar α
  /-- The bar is the newest one. -/
  is_latest : series.latest? = some current
  /-- Its numbers are finite. -/
  is_finite : current.firstNonFinite? = none

namespace Context

variable {α : Type} [Scalar α]

/-- The context of a series. -/
def of (series : Series α) : Except ContextError (Context α) :=
  match h : series.latest? with
  | none => .error (.emptySeries series.symbol)
  | some current =>
    match h' : current.firstNonFinite? with
    | some field => .error (.malformedBar series.symbol field)
    | none => .ok ⟨series, current, h, h'⟩

/-- A property of the newest bar. -/
def property (c : Context α) : Property → α
  | .close | .price => c.current.close
  | .opening => c.current.opening
  | .high => c.current.high
  | .low => c.current.low
  | .volume => c.current.volume

/-- The price at which shares change hands: the newest close. -/
def price (c : Context α) : α := c.current.close

/-- The value of an indicator at the newest bar, absent where the history is too short. -/
def indicator? (c : Context α) (i : Indicator) : Option α :=
  i.value? c.series.closes c.series.volumes

/-- A context holds the series that it was made of. -/
theorem series_of {s : Series α} {c : Context α} (h : of s = .ok c) : c.series = s := by
  unfold of at h
  split at h
  · cases h
  · split at h <;> cases h
    rfl

end Context

end TradeRules
