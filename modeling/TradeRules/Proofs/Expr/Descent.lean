import TradeRules.Proofs.Expr.Cursor

/-!
# Procedures that call one another

Expressions are parsed by eight procedures over cursors, each of which calls the others
(`Procedure.body`). A call takes one of the places there are for procedures at work, and a run that
needs more of them stops (`Steps.call`); so does a loop that is not done in time. With that, every
run is finite by its definition, and whether it ends with a result is a matter of proof.
-/

namespace TradeRules

open Text Number

/-- What a procedure returns. -/
abbrev Procedure.Yield (α : Type) : Procedure → Type
  | .arguments => List (Expr α)
  | _ => Expr α

namespace Steps

variable {α : Type} (text : List Char)

/-- The rest of a row, whose operands so far are `left`. -/
def continueRow (k : Chain) (operand : Steps (Expr α)) : Nat → Expr α → Steps (Expr α)
  | 0, _ => throw .tooManyRounds
  | n + 1, left => do
    match ← operator? text k with
    | none => pure left
    | some op => do
      addOperator
      let right ← operand
      continueRow k operand n (.binary op left right)

/-- A row of operands, grouped from the left. -/
def row (k : Chain) (operand : Steps (Expr α)) : Steps (Expr α) := do
  let left ← operand
  continueRow text k operand (rounds text) left

/-- The arguments after those that were read, up to the closing parenthesis. -/
def moreArguments (argument : Steps (Expr α)) :
    Nat → List (Expr α) → Steps (List (Expr α))
  | 0, _ => throw .tooManyRounds
  | n + 1, read => do
    skipBlanks text
    if (← peek text) = some ')' then
      advance text
      pure read
    else
      expect text ','
      let a ← argument
      moreArguments argument n (read ++ [a])

end Steps

namespace Procedure

open Steps

variable {α : Type} [Scalar α] (text : List Char) (call : (p : Procedure) → Steps (p.Yield α))

/-- A negation, or a comparison. -/
def negated : Steps (Expr α) := do
  if ← consumeWord? text "NOT".toList then
    addOperator
    enter
    let operand ← call .negation
    leave
    pure (.not operand)
  else call .comparison

/-- A sum, or a comparison of two sums. A second comparison is an error. -/
def compared : Steps (Expr α) := do
  let left ← call .sum
  match ← comparison? text with
  | none => pure left
  | some c => do
    addOperator
    let right ← call .sum
    match ← comparison? text with
    | some _ => refuse .chainedComparison
    | none => pure (.binary (.compare c) left right)

/-- An expression in parentheses. -/
def grouped : Steps (Expr α) := do
  advance text
  enter
  let inner ← call .disjunction
  expect text ')'
  leave
  pure inner

/-- A property, or a function with its arguments. -/
def named : Steps (Expr α) := do
  match ← firstWord? text keywords with
  | some _ => do
    let word := (← remaining text).takeWhile isNameChar
    refuse (.keywordAsOperand word)
  | none => do
    let word ← name text
    skipBlanks text
    if (← peek text) = some '(' then
      addOperator
      let args ← call .arguments
      pure (.call (String.ofList word) args)
    else pure (.name (String.ofList word))

/-- What needs no parentheses: a group, a number, a property or a call. -/
def operand : Steps (Expr α) := do
  skipBlanks text
  match ← peek text with
  | none => refuse (.expectedOperand .endOfInput)
  | some c =>
    if c = '(' then grouped text call
    else if ← numberIsNext text then do
      let x : α ← number text
      pure (.literal x)
    else if isNameStart c then named text call
    else refuse (.expectedOperand (.text [c]))

/-- An argument list with its parentheses. -/
def listed : Steps (List (Expr α)) := do
  expect text '('
  skipBlanks text
  if (← peek text) = some ')' then
    advance text
    pure []
  else
    enter
    let first ← call .disjunction
    let all ← moreArguments text (call .disjunction) (rounds text) [first]
    leave
    pure all

/-- What a procedure does, given what it calls. -/
def body : (p : Procedure) → Steps (p.Yield α)
  | .disjunction => row text .disjunction (call .conjunction)
  | .conjunction => row text .conjunction (call .negation)
  | .negation => negated text call
  | .comparison => compared text call
  | .sum => row text .sum (call .product)
  | .product => row text .product (call .primary)
  | .primary => operand text call
  | .arguments => listed text call

end Procedure

namespace Steps

variable {α : Type} [Scalar α] (text : List Char)

/-- A call of a procedure, with so many places for procedures at work. -/
def call : Nat → (p : Procedure) → Steps (p.Yield α)
  | 0, _ => throw .tooManyCalls
  | n + 1, p => during p (p.body text (call n))

/-- How many procedures may be at work at once: all of them at each nested level. -/
def places : Nat := 8 * (maxNesting + 1)

/-- The expression that a whole text spells. -/
def parse : Steps (Expr α) := do
  skipBlanks text
  if (← peek text) = none then refuse .emptyExpression
  else
    let e ← call text places .disjunction
    skipBlanks text
    if (← cursor).position < Utf8.length text then
      refuse (.trailingInput (← remaining text))
    else pure e

/-- The run of the parser over a text. -/
def runOn (text : List Char) : EStateM.Result Stop Trail (Expr α) :=
  (parse text).run ⟨⟨0, 0, 0, []⟩, []⟩

/-- How the run over a text ends. -/
def outcome (text : List Char) : Except Stop (Expr α) :=
  match runOn text with
  | .ok e _ => .ok e
  | .error stop _ => .error stop

/-- Every cursor that the run over a text comes to. -/
def cursors (α : Type) [Scalar α] (text : List Char) : List Cursor :=
  match (runOn text : EStateM.Result Stop Trail (Expr α)) with
  | .ok _ trail | .error _ trail => trail.cursors

end Steps

end TradeRules
