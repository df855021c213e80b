import TradeRules.Rule.Sizing

/-!
# What a rule decides

A rule is evaluated in two steps. Whether it fires depends on its condition and on the series alone.
Only a rule that fires asks for cash and is sized, and its size is cut down to whole
shares, of which there has to be one. The asking is an action of any monad, so that it can be a
constant, a look-up with memory, or the reading of a file.
-/

namespace TradeRules

/-- The outcome of evaluating a rule without an error. -/
inductive Decision (α : Type) where
  /-- The condition does not hold. -/
  | hold (price : α)
  /-- The condition holds, and a number of shares is to be traded. -/
  | trade (shares : Nat) (price : α)
  deriving Repr

namespace Decision

variable {α : Type}

/-- Whether shares are to be traded. -/
def isTrade : Decision α → Bool
  | .trade _ _ => true
  | .hold _ => false

/-- How many shares are to be traded. -/
def shares : Decision α → Nat
  | .trade n _ => n
  | .hold _ => 0

/-- The price at the time of the decision. -/
def price : Decision α → α
  | .trade _ p => p
  | .hold p => p

/-- What the shares are worth. -/
def total [Scalar α] (d : Decision α) : α := Scalar.ofCount d.shares * d.price

end Decision

namespace Rule

variable {α : Type} [Scalar α]

/-- The context of a series, and whether the rule's condition holds in it. -/
def firing (r : Rule) (s : Series α) : Except (RuleError α) (Context α × Bool) :=
  match readExpr r.condition with
  | .error e => .error e
  | .ok e =>
    match Context.of s with
    | .error err => .error (.context err)
    | .ok c =>
      match e.fires c with
      | .error err => .error (.eval err)
      | .ok b => .ok (c, b)

/-- The trade of a rule that fires, given the answer to the question for cash. -/
def trade (r : Rule) (c : Context α) (cash : Except (SizingError α) (Option α)) :
    Except (RuleError α) (Decision α) :=
  match cash with
  | .error e => .error (.sizing e)
  | .ok cash =>
    match computeSize c r.sizing r.size cash with
    | .error e => .error e
    | .ok size =>
      let shares := Scalar.floor size
      if Scalar.atMost shares Scalar.zero then .error (.sizing (.nonPositive shares))
      else .ok (.trade (Scalar.toCount shares) c.price)

/-- The decision of a rule on a series, where `cash` is asked for only if the rule fires. -/
def evaluate {m : Type → Type} [Monad m] (r : Rule) (s : Series α)
    (cash : m (Except (SizingError α) (Option α))) : m (Except (RuleError α) (Decision α)) :=
  match r.firing s with
  | .error e => pure (.error e)
  | .ok (c, false) => pure (.ok (.hold c.price))
  | .ok (c, true) => do return r.trade c (← cash)

end Rule

end TradeRules
