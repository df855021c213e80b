import TradeRules.Expr.Basic
import TradeRules.Indicator.Basic

/-!
# What expressions may speak of

Six properties of the newest bar, and the indicator calls: a known function with one argument, which
is a literal whole number above zero. `Expr.validate` checks an expression against this
vocabulary from the left and reports the first offence. What stands inside the argument list of
a call is looked at only through the call.
-/

namespace TradeRules

open Number

/-- The properties of the newest bar. -/
inductive Property where
  | close
  | opening
  | high
  | low
  | volume
  /-- Another word for the closing price. -/
  | price
  deriving DecidableEq, Repr

namespace Property

/-- All properties, in the order in which messages name them. -/
def all : List Property := [.close, .opening, .high, .low, .volume, .price]

/-- The name of a property. -/
def name : Property → String
  | .close => "close"
  | .opening => "open"
  | .high => "high"
  | .low => "low"
  | .volume => "volume"
  | .price => "price"

/-- The property that a name means; letter case matters. -/
def ofName? (n : String) : Option Property := all.find? fun p => p.name == n

theorem ofName?_name (p : Property) : ofName? p.name = some p := by cases p <;> decide

/-- A name means a property exactly if it is the name of that property. -/
theorem ofName?_eq_some_iff {n : String} {p : Property} : ofName? n = some p ↔ p.name = n := by
  constructor
  · intro h
    simpa using List.find?_some h
  · rintro rfl
    exact ofName?_name p

end Property

/-- An offence against the vocabulary. -/
inductive VocabularyError (α : Type) where
  /-- No function has this name. -/
  | unknownFunction (function : String)
  /-- A function has more or fewer arguments than one. -/
  | wrongArity (function : String) (found : Nat)
  /-- The argument of a function is no literal. -/
  | nonLiteralArgument (function : String)
  /-- The period of a function has a fraction or is not finite. -/
  | nonIntegerPeriod (function : String) (value : α)
  /-- The period of a function is zero or negative. -/
  | nonPositivePeriod (function : String) (value : α)
  /-- No property has this name. -/
  | unknownProperty (name : String)
  deriving Repr

/-- The wording of an offence. -/
def VocabularyError.message {α : Type} [Scalar α] : VocabularyError α → String
  | .unknownFunction f =>
    "unknown function '" ++ f ++ "' (expected one of " ++
      ", ".intercalate (IndicatorKind.all.map IndicatorKind.name) ++ ")"
  | .wrongArity f found => f ++ " takes exactly 1 argument, found " ++ toString found
  | .nonLiteralArgument f => f ++ " argument must be a numeric literal"
  | .nonIntegerPeriod f x => f ++ " period must be an integer, found " ++ Scalar.text x
  | .nonPositivePeriod f x => f ++ " period must be positive, found " ++ Scalar.text x
  | .unknownProperty n =>
    "unknown property '" ++ n ++ "' (expected one of " ++
      ", ".intercalate (Property.all.map Property.name) ++ ")"

variable {α : Type} [Scalar α]

/-- The indicator that a call means: the name is checked first, then the number of arguments, then
that the one argument is a literal, positive and whole. The name is then looked up once more. -/
def resolveCall (function : String) (arguments : List (Expr α)) :
    Except (VocabularyError α) Indicator :=
  if IndicatorKind.isFunction function then
    match arguments with
    | [.literal x] =>
      if Scalar.atMost x Scalar.zero then .error (.nonPositivePeriod function x)
      else if Scalar.isWhole x then
        match Indicator.ofCall? function (Scalar.toCount x) with
        | some i => .ok i
        | none => .error (.unknownFunction function)
      else .error (.nonIntegerPeriod function x)
    | [_] => .error (.nonLiteralArgument function)
    | args => .error (.wrongArity function args.length)
  else .error (.unknownFunction function)

namespace Expr

/-- Checks an expression against the vocabulary. -/
def validate : Expr α → Except (VocabularyError α) Unit
  | .literal _ => .ok ()
  | .name n =>
    match Property.ofName? n with
    | some _ => .ok ()
    | none => .error (.unknownProperty n)
  | .call f args =>
    match resolveCall f args with
    | .ok _ => .ok ()
    | .error e => .error e
  | .not e => e.validate
  | .binary _ l r =>
    match l.validate with
    | .ok () => r.validate
    | .error e => .error e

/-- The indicators that the calls of an expression mean, in the order of the calls. Calls outside
the vocabulary mean none. -/
def indicators (e : Expr α) : List Indicator :=
  e.calls.filterMap fun (f, args) => (resolveCall f args).toOption

/-- The days of history planned for an expression without indicators. -/
def defaultLookback : Nat := 30

/-- The most days of history planned for any expression. -/
def maxLookback : Nat := 365

/-- The days of history after which every indicator of an expression is settled, up to
`maxLookback`. -/
def lookback (e : Expr α) : Nat :=
  min ((e.indicators.map Indicator.settlingBars).max?.getD defaultLookback) maxLookback

/-- No expression asks for more than the greatest lookback. -/
theorem lookback_le (e : Expr α) : e.lookback ≤ maxLookback := Nat.min_le_right ..

end Expr

end TradeRules
