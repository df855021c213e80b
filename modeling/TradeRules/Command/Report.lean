import TradeRules.Batch.Outcome
import TradeRules.Indicator.History
import TradeRules.Number.Spelling

/-!
# Reports

What the commands print: a line per rule and a summary for a batch, and a line per point for a
history. Money has two places, and indicator values have four.
-/

namespace TradeRules

open Number

namespace Report

/-- A text filled up with blanks to a number of characters. -/
def column (width : Nat) (s : String) : String :=
  s ++ String.ofList (List.replicate (width - s.length) ' ')

/-- An amount of money. -/
def money (x : Float) : String := String.ofList (Binary64.fixed 2 x)

/-- An amount of money that always has a sign. -/
def signedMoney (x : Float) : String := String.ofList (Binary64.signedFixed 2 x)

/-- What became of a rule. -/
def status (rule : Rule) : Verdict Float → String
  | .error e => "ERROR " ++ e.message
  | .ok (.hold price) => "not triggered @ " ++ money price
  | .ok (.trade shares price) =>
    let total := (Decision.trade shares price).total
    "TRIGGERED " ++ rule.action.name ++ " " ++ toString shares ++ " @ " ++ money price ++
      " = " ++ money total ++ " (cash " ++ signedMoney (rule.action.cashChange total) ++ ")"

/-- The line of a rule. -/
def entry (e : Entry Float) : String :=
  column 12 e.rule.id ++ " " ++ column 8 e.rule.symbol ++ " " ++ status e.rule e.verdict ++ "\n"

/-- The line that sums a batch up. -/
def summary (t : Tally) : String :=
  "triggered: " ++ toString t.fired ++ ", not triggered: " ++ toString t.idle ++
    ", errors: " ++ toString t.failed ++ "\n"

/-- The report on a batch. -/
def outcome (o : Outcome Float) : String :=
  String.join (o.entries.map entry) ++ "\n" ++ summary o.tally

/-- The line of a point. -/
def point (p : Point Float) : String :=
  String.ofList p.time.minuteText ++ "  " ++
    (match p.value with
      | some x => String.ofList (Binary64.fixed 4 x)
      | none => "-") ++ "\n"

/-- The report on an indicator's latest points. -/
def history (symbol : String) (i : Indicator) (points : List (Point Float)) : String :=
  symbol ++ " " ++ i.text ++ "\n" ++ String.join (points.map point)

/-- The report on an expression that was checked. -/
def expression (text : String) (indicators : List Indicator) (lookback : Nat) : String :=
  "Parsed:    " ++ text ++ "\n" ++
    "Functions: " ++
      (if indicators.isEmpty then "none"
        else ", ".intercalate (indicators.map Indicator.text)) ++ "\n" ++
    "Lookback:  " ++ toString lookback ++ " days\n"

end Report

end TradeRules
