import TradeRules.Rule.Basic
import TradeRules.Expr.Parser
import TradeRules.Expr.Vocabulary

/-!
# Which history a batch needs

The active rules are grouped by symbol, in the order in which the symbols first appear. Each symbol
is requested once, with a window long enough for every rule on it and for the batch's own floor. A
text that cannot be read asks for the default window.
-/

namespace TradeRules

/-- The settings of a batch. -/
structure BatchSettings where
  /-- The least window for any symbol, in bars. -/
  minFetchDays : Nat
  deriving DecidableEq, Repr

/-- The settings where nothing else is said. -/
def BatchSettings.default : BatchSettings := ⟨Expr.defaultLookback⟩

/-- A request for the newest bars of a symbol. -/
structure Request where
  /-- What is traded. -/
  symbol : String
  /-- How many bars are wanted. -/
  days : Nat
  deriving DecidableEq, Repr

/-- The rules of one symbol. -/
structure RuleGroup where
  /-- What they trade. -/
  symbol : String
  /-- The rules, in the order of the batch. -/
  rules : List Rule
  deriving DecidableEq, Repr

/-- The groups with one more rule: it joins the group of its symbol, or opens one at the end. -/
def RuleGroup.join (rule : Rule) : List RuleGroup → List RuleGroup
  | [] => [⟨rule.symbol, [rule]⟩]
  | g :: gs =>
    if g.symbol = rule.symbol then { g with rules := g.rules ++ [rule] } :: gs
    else g :: join rule gs

namespace Batch

/-- The rules that take part. -/
def active (rules : List Rule) : List Rule := rules.filter Rule.isActive

/-- The rules that take part, by symbol. -/
def groups (rules : List Rule) : List RuleGroup :=
  (active rules).foldl (fun gs r => RuleGroup.join r gs) []

end Batch

section

variable (α : Type) [Scalar α]

/-- The window that the expression of a text asks for, its literals being read as numbers of
the given type. -/
def lookbackOfText (text : String) : Nat :=
  match (Expr.ofString text : Except ParseError (Expr α)) with
  | .ok e => e.lookback
  | .error _ => Expr.defaultLookback

/-- The window that a rule asks for, also on account of a size given as an expression. -/
def Rule.lookback (r : Rule) : Nat :=
  match r.sizing with
  | .expression => max (lookbackOfText α r.condition) (lookbackOfText α r.size)
  | .fixed | .percentage => lookbackOfText α r.condition

namespace Batch

/-- The window of a group: the longest of its rules and at least the floor. -/
def window (settings : BatchSettings) (rules : List Rule) : Nat :=
  max ((rules.map (Rule.lookback α)).max?.getD Expr.defaultLookback) settings.minFetchDays

/-- The requests of a batch, one per symbol. -/
def plan (settings : BatchSettings) (rules : List Rule) : List Request :=
  (groups rules).map fun g => ⟨g.symbol, window α settings g.rules⟩

end Batch

end

end TradeRules
