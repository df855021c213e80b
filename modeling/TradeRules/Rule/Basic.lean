import TradeRules.Number.Scalar

/-!
# Rules

A rule says when to trade a symbol for a user, in which direction, and how much. Its condition and
its size are texts, which are read when the rule is evaluated.
-/

namespace TradeRules

/-- The direction of a trade. -/
inductive Action where
  | buy
  | sell
  deriving DecidableEq, Repr

/-- The word for a direction. -/
def Action.name : Action → String
  | .buy => "BUY"
  | .sell => "SELL"

/-- The change of a user's cash when shares worth `total` are traded. -/
def Action.cashChange {α : Type} [Scalar α] (a : Action) (total : α) : α :=
  match a with
  | .buy => -total
  | .sell => total

/-- How the size of a trade is given. -/
inductive Sizing where
  /-- As a number of shares. -/
  | fixed
  /-- As a percentage of the user's cash. -/
  | percentage
  /-- As an expression for the number of shares. -/
  | expression
  deriving DecidableEq, Repr

/-- The word for a way of sizing. -/
def Sizing.name : Sizing → String
  | .fixed => "FIXED"
  | .percentage => "PERCENTAGE"
  | .expression => "EXPRESSION"

/-- All directions. -/
def Action.all : List Action := [.buy, .sell]

/-- All ways of sizing. -/
def Sizing.all : List Sizing := [.fixed, .percentage, .expression]

/-- The direction that a word means. -/
def Action.ofName? (n : String) : Option Action := Action.all.find? fun a => a.name == n

/-- The way of sizing that a word means. -/
def Sizing.ofName? (n : String) : Option Sizing := Sizing.all.find? fun s => s.name == n

/-- A trading rule. -/
structure Rule where
  /-- What the rule is called. -/
  id : String
  /-- Whose rule it is. -/
  user : String
  /-- What it trades. -/
  symbol : String
  /-- When it trades, as an expression. -/
  condition : String
  /-- In which direction it trades. -/
  action : Action
  /-- How its size is given. -/
  sizing : Sizing
  /-- Its size: a number or an expression. -/
  size : String
  /-- Whether it takes part in a batch. -/
  isActive : Bool
  deriving DecidableEq, Repr

end TradeRules
