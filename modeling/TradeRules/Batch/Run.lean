import TradeRules.Batch.Plan
import TradeRules.Batch.Outcome

/-!
# Running a batch

A batch asks a source for the history of each symbol, in the order of its plan, and then judges the
rules group by group on the answers. Failures never end it: rules whose history is missing fail
with that reason, and a rule that fails only fails itself. A user's cash is asked for when the
first of the user's rules sized by percentage fires, and the answer, also a refusal, is kept for
the others. Source and accounts are actions of any monad. The breakdown of a source is an answer
like others; that of an account is left to the monad, where it ends the batch.
-/

namespace TradeRules

/-- How a source answers a request. -/
inductive Answer (α : Type) where
  /-- With a history. -/
  | series (s : Series α)
  /-- With a refusal. -/
  | refused (e : SourceError)
  /-- Not at all: it broke down. -/
  | crashed

variable {α : Type}

/-- The history in an answer to a request; a breakdown is a failure of that request alone. -/
def Answer.toExcept (symbol : String) : Answer α → Except SourceError (Series α)
  | .series s => .ok s
  | .refused e => .error e
  | .crashed => .error (.failed symbol "fetch thread panicked")

/-- The answers to questions for cash so far, by user; a refusal is kept as its wording. -/
abbrev Ledger (α : Type) : Type := List (String × Except String α)

namespace Ledger

/-- A user's cash, asked for only if there is no answer yet. -/
def balance {m : Type → Type} [Monad m] (accounts : String → m (Except String α))
    (user : String) : StateT (Ledger α) m (Except String α) := fun ledger =>
  match ledger.lookup user with
  | some known => pure (known, ledger)
  | none => do
    let fresh ← accounts user
    return (fresh, (user, fresh) :: ledger)

/-- The cash that the sizing of a rule may use: none unless it is sized by percentage. -/
def cashFor {m : Type → Type} [Monad m] (accounts : String → m (Except String α)) (rule : Rule) :
    StateT (Ledger α) m (Except (SizingError α) (Option α)) :=
  match rule.sizing with
  | .percentage => do
    match ← balance accounts rule.user with
    | .ok cash => return .ok (some cash)
    | .error reason => return .error (.cashUnavailable reason)
  | .fixed | .expression => return .ok none

end Ledger

namespace Batch

variable [Scalar α]

/-- The rules that take part, group by group, each with the history to judge it on. -/
def cases {β : Type} (groups : List RuleGroup) (histories : List β) : List (Rule × β) :=
  (groups.zip histories).flatMap fun (g, h) => g.rules.map (·, h)

/-- The verdict on a rule, given its history or the reason why there is none. -/
def judge {m : Type → Type} [Monad m] (cash : m (Except (SizingError α) (Option α)))
    (rule : Rule) (history : Except SourceError (Series α)) : m (Verdict α) :=
  match history with
  | .error e => pure (.error (.fetch e))
  | .ok s => do return (← rule.evaluate s cash).mapError .rule

/-- Judges one rule after another and records the verdicts. -/
def judgeAll {m : Type → Type} [Monad m]
    (cash : Rule → m (Except (SizingError α) (Option α)))
    (cases : List (Rule × Except SourceError (Series α))) : m (Outcome α) :=
  cases.foldlM (fun outcome (rule, history) => do
    return outcome.record rule (← judge (cash rule) rule history)) .empty

/-- Judges the rules of a batch on the answers to its plan, which come in the order of the
plan. -/
def judgeAnswers {m : Type → Type} [Monad m] (accounts : String → m (Except String α))
    (rules : List Rule) (answers : List (Except SourceError (Series α))) : m (Outcome α) := do
  return (← (judgeAll (Ledger.cashFor accounts) (cases (groups rules) answers)).run []).1

/-- Plans a batch, fetches its histories and judges its rules. -/
def run {m : Type → Type} [Monad m] (source : Request → m (Answer α))
    (accounts : String → m (Except String α)) (settings : BatchSettings) (rules : List Rule) :
    m (Outcome α) := do
  let answers ← (plan α settings rules).mapM fun r => do
    return (← source r).toExcept r.symbol
  judgeAnswers accounts rules answers

/-- Judges the rules of a batch on histories that are at hand, with one amount of cash for
all users. -/
def evaluate (rules : List Rule) (histories : String → Option (Series α)) (cash : Option α) :
    Outcome α :=
  let found := (groups rules).map fun g =>
    match histories g.symbol with
    | some s => .ok s
    | none => .error (.noData g.symbol)
  Id.run (judgeAll (fun _ => pure (.ok cash)) (cases (groups rules) found))

end Batch

end TradeRules
