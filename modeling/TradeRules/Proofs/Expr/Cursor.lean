import TradeRules.Expr.Parser

/-!
# Reading by byte position

A parser state keeps the characters that are left. Here the text stays whole, and a cursor says at
which byte of it the reading stands; whatever is looked at is cut out of the text there. A cut
inside a character, or behind the end of the text, stops the run, and so does a nesting that would
fall below zero. The run keeps every cursor that it has come to.
-/

namespace TradeRules

open Text Number

/-- A text cut at a byte position, unless the position is inside a character or behind the end. -/
def Text.Utf8.cut? : Nat → List Char → Option (List Char × List Char)
  | 0, cs => some ([], cs)
  | _ + 1, [] => none
  | n + 1, c :: cs =>
    if c.utf8Size ≤ n + 1 then
      (cut? (n + 1 - c.utf8Size) cs).map fun (before, after) => (c :: before, after)
    else none

/-- The readers that call one another: one for each strength of binding, from the loosest on, and
one for argument lists. -/
inductive Procedure where
  | disjunction
  | conjunction
  | negation
  | comparison
  | sum
  | product
  | primary
  | arguments
  deriving DecidableEq, Repr

/-- A procedure at work, and how deeply nested it was called. -/
structure Activation where
  /-- Which procedure it is. -/
  procedure : Procedure
  /-- The nesting at its call. -/
  depth : Nat
  deriving DecidableEq, Repr

/-- A place in a text, with all that is counted on the way. -/
structure Cursor where
  /-- The number of bytes before the place. -/
  position : Nat
  /-- The number of parentheses, argument lists and negations that are open. -/
  depth : Nat
  /-- The number of operators and calls that were read. -/
  operators : Nat
  /-- The procedures that are at work, the one called last in front. -/
  active : List Activation
  deriving DecidableEq, Repr

/-- The cursors that a run has come to. -/
structure Trail where
  /-- The cursor where the run stands. -/
  now : Cursor
  /-- The cursors before, the latest in front. -/
  past : List Cursor
  deriving DecidableEq, Repr

/-- All cursors of a run. -/
def Trail.cursors (trail : Trail) : List Cursor := trail.now :: trail.past

/-- Why a run ends without a result. -/
inductive Stop where
  /-- The text is no expression. -/
  | refused (err : ParseError)
  /-- A cut was asked for at a position where the text cannot be cut. -/
  | badCut
  /-- A nested level was left that was not entered. -/
  | depthBelowZero
  /-- More procedures would be at work than there may be. -/
  | tooManyCalls
  /-- A loop was not done after as many rounds as it may take. -/
  | tooManyRounds
  deriving DecidableEq, Repr

/-- A stretch of a run, which may stop it. -/
abbrev Steps := EStateM Stop Trail

namespace Steps

variable {α β σ : Type}

/-- Where the run stands. -/
def cursor : Steps Cursor := return (← get).now

/-- The run goes on to another cursor. -/
def move (f : Cursor → Cursor) : Steps Unit :=
  modify fun trail => ⟨f trail.now, trail.cursors⟩

/-- The text is no expression, as is noticed at a given position. -/
def refuseAt (position : Nat) (fault : ParseFault) : Steps β :=
  throw (.refused ⟨fault, position⟩)

/-- The text is no expression, as is noticed here. -/
def refuse (fault : ParseFault) : Steps β := do refuseAt (← cursor).position fault

/-- A text cut at a byte position. -/
def cut (n : Nat) (text : List Char) : Steps (List Char × List Char) :=
  match Utf8.cut? n text with
  | some parts => pure parts
  | none => throw .badCut

/-! ### Counters -/

/-- One nested level more, unless there are too many. -/
def enter : Steps Unit := do
  move fun c => { c with depth := c.depth + 1 }
  if maxNesting < (← cursor).depth then refuse .tooDeep

/-- One nested level less. -/
def leave : Steps Unit := do
  match (← cursor).depth with
  | 0 => throw .depthBelowZero
  | depth + 1 => move fun c => { c with depth }

/-- One more operator or call, unless there are too many. -/
def addOperator : Steps Unit := do
  move fun c => { c with operators := c.operators + 1 }
  if maxOperators < (← cursor).operators then refuse .tooManyOperators

/-- A stretch during which a procedure is at work. -/
def during (p : Procedure) (m : Steps β) : Steps β := do
  move fun c => { c with active := ⟨p, c.depth⟩ :: c.active }
  let result ← m
  move fun c => { c with active := c.active.tail }
  pure result

/-! ### Characters -/

variable (text : List Char)

/-- How many rounds a loop over the text may take. -/
def rounds : Nat := text.length + 1

/-- What is still to be read. -/
def remaining : Steps (List Char) := do
  let parts ← cut (← cursor).position text
  pure parts.2

/-- The character that comes next. -/
def peek : Steps (Option Char) := do
  let rest ← remaining text
  pure rest.head?

/-- The character behind the one that comes next. -/
def peekSecond : Steps (Option Char) := do
  let rest ← remaining text
  pure rest.tail.head?

/-- The character that comes next is passed. -/
def advance : Steps Unit := do
  match ← peek text with
  | none => pure ()
  | some c => move fun k => { k with position := k.position + c.utf8Size }

/-- Characters are passed one by one, as long as each of them can be added to what was seen. -/
def scan (add : σ → Char → Option σ) : Nat → σ → Steps σ
  | 0, _ => throw .tooManyRounds
  | n + 1, seen => do
    match (← peek text).bind (add seen) with
    | none => pure seen
    | some seen => do
      advance text
      scan add n seen

/-- Characters of a class are passed. -/
def passWhile (p : Char → Bool) : Steps Unit :=
  scan text (fun _ c => if p c then some () else none) (rounds text) ()

/-- Blanks are passed. -/
def skipBlanks : Steps Unit := passWhile text isBlank

/-! ### Tokens -/

/-- Whether a given text comes next. It is passed if it does. -/
def consume? (w : List Char) : Steps Bool := do
  if w.isPrefixOf (← remaining text) then
    move fun c => { c with position := c.position + Utf8.length w }
    pure true
  else pure false

/-- Whether a given word comes next, and no character behind it that would belong to it. -/
def wordIsNext (w : List Char) : Steps Bool := do
  let rest ← remaining text
  if w.isPrefixOf rest then
    let parts ← cut (Utf8.length w) rest
    pure (!parts.2.head?.any isNameChar)
  else pure false

/-- Whether a given word comes next behind blanks. It is passed if it does. -/
def consumeWord? (w : List Char) : Steps Bool := do
  skipBlanks text
  if ← wordIsNext text w then
    move fun c => { c with position := c.position + Utf8.length w }
    pure true
  else pure false

/-- The first of some words that comes next. -/
def firstWord? : List (List Char) → Steps (Option (List Char))
  | [] => pure none
  | w :: ws => do
    if ← wordIsNext text w then pure (some w) else firstWord? ws

/-- What comes next, for a message: a word, else one character. -/
def found : Steps Found := do
  let word := (← remaining text).takeWhile isNameChar
  match ← peek text with
  | none => pure .endOfInput
  | some c => pure (.text (if word = [] then [c] else word))

/-- A mark that has to come next behind blanks is passed. -/
def expect (mark : Char) : Steps Unit := do
  skipBlanks text
  if (← peek text) = some mark then advance text
  else refuse (.expectedMark mark (← found text))

/-- The text between an earlier position and this one. -/
def since (start : Nat) : Steps (List Char) := do
  let front ← cut (← cursor).position text
  let parts ← cut start front.1
  pure parts.2

/-- The name that comes next is passed. -/
def name : Steps (List Char) := do
  let start := (← cursor).position
  passWhile text isNameChar
  since text start

/-- A further character of a decimal: a digit, or the first point. What was seen is whether there
was a point and how many digits there were. -/
def addPlace (seen : Bool × Nat) (c : Char) : Option (Bool × Nat) :=
  if c.isDigit then some (seen.1, seen.2 + 1)
  else if c = '.' ∧ seen.1 = false then some (true, seen.2)
  else none

/-- A sign is passed if one comes next. -/
def passSign : Steps Unit := do
  let first ← peek text
  if first = some '-' ∨ first = some '+' then advance text

/-- The number that comes next is passed. -/
def number [Scalar α] : Steps α := do
  let start := (← cursor).position
  passSign text
  let seen ← scan text addPlace (rounds text) (false, 0)
  if seen.2 = 0 then refuseAt start .expectedNumber
  else
    let numeral ← since text start
    let signed := splitSign numeral
    let x : α := Scalar.ofDecimal signed.1 (LeadingDecimal.read signed.2).magnitude
    if Scalar.isFinite x then pure x else refuseAt start (.numberOutOfRange numeral)

/-- Whether a number comes next: a digit or a point, or one of them behind a sign. -/
def numberIsNext : Steps Bool := do
  match ← peek text with
  | none => pure false
  | some c =>
    if State.startsNumber.isNumeric c then pure true
    else if c = '-' ∨ c = '+' then pure ((← peekSecond text).any State.startsNumber.isNumeric)
    else pure false

/-- The comparisons in the order in which they are tried: the longer ones first. -/
def comparisons : List Comparison := [.le, .ge, .eq, .ne, .lt, .gt]

/-- The first of some comparisons that comes next. It is passed. -/
def firstComparison? : List Comparison → Steps (Option Comparison)
  | [] => pure none
  | c :: cs => do
    if ← consume? text c.symbol.toList then pure (some c) else firstComparison? cs

/-- The comparison that comes next behind blanks is passed. Half of a comparison is an error. -/
def comparison? : Steps (Option Comparison) := do
  skipBlanks text
  match ← firstComparison? text comparisons with
  | some c => pure (some c)
  | none => do
    let next ← peek text
    if next = some '=' then refuse .singleEquals
    else if next = some '!' then refuse .loneBang
    else pure none

/-- The operator of one of two marks that comes next behind blanks is passed. -/
def eitherMark? (mark mark' : Char) (op op' : BinaryOp) : Steps (Option BinaryOp) := do
  skipBlanks text
  if ← consume? text [mark] then pure (some op)
  else if ← consume? text [mark'] then pure (some op')
  else pure none

/-- The operator of one word that comes next behind blanks is passed. -/
def markWord? (w : List Char) (op : BinaryOp) : Steps (Option BinaryOp) := do
  if ← consumeWord? text w then pure (some op) else pure none

/-- The operator of a row that comes next behind blanks is passed. -/
def operator? : Chain → Steps (Option BinaryOp)
  | .disjunction => markWord? text "OR".toList .or
  | .conjunction => markWord? text "AND".toList .and
  | .sum => eitherMark? text '+' '-' (.compute .add) (.compute .sub)
  | .product => eitherMark? text '*' '/' (.compute .mul) (.compute .div)

end Steps

end TradeRules
