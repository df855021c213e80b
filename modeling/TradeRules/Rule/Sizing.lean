import TradeRules.Text.Blank
import TradeRules.Rule.Basic
import TradeRules.Expr.Parser
import TradeRules.Expr.Eval

/-!
# How much to trade

The size of a trade before it is cut down to whole shares. A fixed size and a percentage are
positive finite numbers; a percentage is at most 100 and needs the user's cash; a size given as an
expression is read, checked and evaluated like a condition, and has to come out positive.
-/

namespace TradeRules

open Text Number

/-- Why a trade has no size. -/
inductive SizingError (α : Type) where
  /-- The size is no positive number. -/
  | invalidSize (sizing : Sizing) (size : String)
  /-- The percentage is above 100. -/
  | percentageOutOfRange (percent : α)
  /-- There is no cash to take a percentage of. -/
  | missingCash
  /-- The user's cash could not be found out. -/
  | cashUnavailable (reason : String)
  /-- Shares cannot be bought at this price. -/
  | nonPositivePrice (price : α)
  /-- The expression for the size did not give a finite number. -/
  | nonNumericResult (found : Value α)
  /-- The size came out as zero or less. -/
  | nonPositive (size : α)
  deriving Repr

/-- The text of a value in a message: a number, or the word for another kind. -/
def Value.text {α : Type} [Scalar α] : Value α → String
  | .number x => Scalar.text x
  | v => v.kind.name

/-- The wording of the reason. -/
def SizingError.message {α : Type} [Scalar α] : SizingError α → String
  | .invalidSize sizing size => "invalid " ++ sizing.name ++ " quantity value '" ++ size ++ "'"
  | .percentageOutOfRange p => "percentage must be in (0, 100], found " ++ Scalar.text p
  | .missingCash => Sizing.percentage.name ++ " sizing requires available cash"
  | .cashUnavailable reason => reason
  | .nonPositivePrice p => "cannot size against a non-positive price " ++ Scalar.text p
  | .nonNumericResult found =>
    "quantity expression produced " ++ found.text ++ ", expected a positive number"
  | .nonPositive x => "computed quantity " ++ Scalar.text x ++ " is not positive"

/-- Why a rule has no decision. -/
inductive RuleError (α : Type) where
  /-- An expression cannot be read. -/
  | parse (e : ParseError)
  /-- An expression leaves the vocabulary. -/
  | vocabulary (e : VocabularyError α)
  /-- The series gives no context. -/
  | context (e : ContextError)
  /-- An expression has no value. -/
  | eval (e : EvalError α)
  /-- The trade has no size. -/
  | sizing (e : SizingError α)
  deriving Repr

/-- The wording of the reason. -/
def RuleError.message {α : Type} [Scalar α] : RuleError α → String
  | .parse e => e.message
  | .vocabulary e => "invalid expression: " ++ e.message
  | .context e => e.message
  | .eval e => "evaluation failed: " ++ e.message
  | .sizing e => "sizing failed: " ++ e.message

variable {α : Type} [Scalar α]

/-- The finite number above zero that a size spells, blanks at either end apart. -/
def positiveSize? (size : String) : Option α :=
  match readNumeral (trim size.toList) with
  | .ok ⟨negative, .scientific mantissa exponent⟩ =>
    let x : α := Scalar.ofScientific negative mantissa exponent
    if Scalar.isFinite x && !Scalar.atMost x Scalar.zero then some x else none
  | _ => none

/-- An expression that can be read and stays within the vocabulary. -/
def readExpr (text : String) : Except (RuleError α) (Expr α) :=
  match Expr.ofString text with
  | .error e => .error (.parse e)
  | .ok e =>
    match e.validate with
    | .error v => .error (.vocabulary v)
    | .ok () => .ok e

/-- A percentage of some cash, in shares at the context's price. -/
def sharesForPercentage (c : Context α) (percent : α) (cash : Option α) :
    Except (SizingError α) α :=
  if Scalar.less (Scalar.ofCount 100) percent then .error (.percentageOutOfRange percent)
  else
    match cash with
    | none => .error .missingCash
    | some cash =>
      if Scalar.atMost c.price Scalar.zero then .error (.nonPositivePrice c.price)
      else .ok (cash * percent / Scalar.ofCount 100 / c.price)

/-- The size that an expression gives: a finite number above zero. -/
def sizeOfValue : Value α → Except (SizingError α) α
  | .number x =>
    if Scalar.isFinite x then
      if Scalar.less Scalar.zero x then .ok x else .error (.nonPositive x)
    else .error (.nonNumericResult (.number x))
  | v => .error (.nonNumericResult v)

/-- The size of a trade, not yet in whole shares. -/
def computeSize (c : Context α) (sizing : Sizing) (size : String) (cash : Option α) :
    Except (RuleError α) α :=
  match sizing with
  | .expression =>
    match readExpr size with
    | .error e => .error e
    | .ok e =>
      match e.eval c with
      | .error e => .error (.eval e)
      | .ok v => (sizeOfValue v).mapError .sizing
  | .fixed =>
    match positiveSize? size with
    | none => .error (.sizing (.invalidSize .fixed size))
    | some x => .ok x
  | .percentage =>
    match positiveSize? size with
    | none => .error (.sizing (.invalidSize .percentage size))
    | some percent => (sharesForPercentage c percent cash).mapError .sizing

end TradeRules
