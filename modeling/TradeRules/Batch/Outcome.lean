import TradeRules.Rule.Decision

/-!
# The outcome of a batch

One entry per rule, in the order in which the rules were judged, and a tally of the three ways in
which judging can end. `record` adds an entry and counts its ending.
-/

namespace TradeRules

/-- Why a history of a symbol cannot be fetched. -/
inductive FetchError where
  /-- Nothing is held about it. -/
  | noData (symbol : String)
  /-- What is held about it could not be read. -/
  | failed (symbol reason : String)
  deriving DecidableEq, Repr

/-- The wording of the reason. -/
def FetchError.message : FetchError → String
  | .noData symbol => "no data for " ++ symbol
  | .failed symbol reason => "failed to fetch data for " ++ symbol ++ ": " ++ reason

/-- Why a source gives no history of a symbol. -/
inductive SourceError where
  /-- It cannot be fetched. -/
  | fetch (e : FetchError)
  /-- Anything else went wrong, of which only the wording counts. -/
  | other (wording : String)
  deriving DecidableEq, Repr

namespace SourceError

/-- The source holds nothing about a symbol. -/
@[match_pattern]
abbrev noData (symbol : String) : SourceError := .fetch (.noData symbol)

/-- The source could not be read. -/
@[match_pattern]
abbrev failed (symbol reason : String) : SourceError := .fetch (.failed symbol reason)

/-- The wording of the reason. -/
def message : SourceError → String
  | .fetch e => e.message
  | .other wording => wording

end SourceError

/-- Why a rule of a batch has no decision. -/
inductive JudgeError (α : Type) where
  /-- There is no history to judge it on. -/
  | fetch (e : SourceError)
  /-- Its evaluation failed. -/
  | rule (e : RuleError α)
  deriving Repr

/-- The wording of the reason. -/
def JudgeError.message {α : Type} [Scalar α] : JudgeError α → String
  | .fetch e => e.message
  | .rule e => e.message

/-- What became of a rule. -/
abbrev Verdict (α : Type) : Type := Except (JudgeError α) (Decision α)

/-- The ways in which judging a rule can end. -/
inductive Ending where
  | fired
  | idle
  | failed
  deriving DecidableEq, Repr

namespace Verdict

variable {α : Type}

/-- How the judging ended. -/
def ending : Verdict α → Ending
  | .ok (.trade _ _) => .fired
  | .ok (.hold _) => .idle
  | .error _ => .failed

/-- Whether shares are to be traded. -/
def isTrade : Verdict α → Bool
  | .ok d => d.isTrade
  | .error _ => false

/-- How many shares are to be traded. -/
def shares : Verdict α → Nat
  | .ok d => d.shares
  | .error _ => 0

/-- The price at the time of the decision, or zero without one. -/
def price [Scalar α] : Verdict α → α
  | .ok d => d.price
  | .error _ => Scalar.zero

/-- What the shares are worth. -/
def total [Scalar α] (v : Verdict α) : α := Scalar.ofCount v.shares * v.price

end Verdict

/-- How often each ending came about. -/
structure Tally where
  /-- Rules that fired. -/
  fired : Nat
  /-- Rules whose condition did not hold. -/
  idle : Nat
  /-- Rules that failed. -/
  failed : Nat
  deriving DecidableEq, Repr

namespace Tally

/-- The tally of nothing. -/
def empty : Tally := ⟨0, 0, 0⟩

/-- One more ending. -/
def add (t : Tally) : Ending → Tally
  | .fired => { t with fired := t.fired + 1 }
  | .idle => { t with idle := t.idle + 1 }
  | .failed => { t with failed := t.failed + 1 }

/-- All endings together. -/
def total (t : Tally) : Nat := t.fired + t.idle + t.failed

end Tally

/-- A rule and what became of it. -/
structure Entry (α : Type) where
  /-- The rule. -/
  rule : Rule
  /-- Its verdict. -/
  verdict : Verdict α

/-- The outcome of a batch. -/
structure Outcome (α : Type) where
  /-- The rules that were judged, in that order. -/
  entries : List (Entry α)
  /-- How they ended. -/
  tally : Tally

namespace Outcome

variable {α : Type}

/-- The outcome before any rule was judged. -/
def empty : Outcome α := ⟨[], .empty⟩

/-- The outcome with one more rule judged. -/
def record (o : Outcome α) (rule : Rule) (verdict : Verdict α) : Outcome α :=
  ⟨o.entries ++ [⟨rule, verdict⟩], o.tally.add verdict.ending⟩

/-- The entries whose rules are to trade. -/
def trades (o : Outcome α) : List (Entry α) := o.entries.filter fun e => e.verdict.isTrade

end Outcome

end TradeRules
