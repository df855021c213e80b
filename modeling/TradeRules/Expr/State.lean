import TradeRules.Text.Blank
import TradeRules.Text.Utf8
import TradeRules.Number.Numeral
import TradeRules.Expr.Basic
import TradeRules.Expr.Fault

/-!
# Reading an expression from the left

A state is what remains of the text, how many bytes came before it, and how many operators and
calls were met so far. The steps below read one token each; the lemmas beside them say that what
remains gets shorter, on which the recursion of the parser rests.
-/

namespace TradeRules

open Text Number

/-- Whether a character may start a name. -/
def isNameStart (c : Char) : Bool := c.isAlpha || c == '_'

/-- Whether a character may stand in a name. -/
def isNameChar (c : Char) : Bool := c.isAlphanum || c == '_'

/-- The words that are operators and therefore no names. -/
def keywords : List (List Char) := ["AND".toList, "OR".toList, "NOT".toList]

/-- A place in a text that is being parsed. -/
structure State where
  /-- What is still to be read. -/
  rest : List Char
  /-- The number of bytes that were read. -/
  offset : Nat
  /-- The number of operators and calls that were read. -/
  operators : Nat
  deriving DecidableEq, Repr

namespace State

/-- The start of a text. -/
def start (text : List Char) : State := ⟨text, 0, 0⟩

/-- The state after `n` more characters. -/
def consume (n : Nat) (s : State) : State :=
  { s with rest := s.rest.drop n, offset := s.offset + Utf8.length (s.rest.take n) }

/-- The state after the blanks that come next. -/
def skipBlanks (s : State) : State := s.consume (s.rest.takeWhile isBlank).length

/-- The longest run of name characters that comes next. -/
def word (s : State) : List Char := s.rest.takeWhile isNameChar

/-- What comes next, for a message: a word, else one character. -/
def found (s : State) : Found :=
  match s.rest with
  | [] => .endOfInput
  | c :: _ => .text (if s.word = [] then [c] else s.word)

/-- An error at this place. -/
def fail (s : State) (fault : ParseFault) : ParseError := ⟨fault, s.offset⟩

/-- Whether a given character comes next. -/
def startsWith (mark : Char) (s : State) : Bool := s.rest.head? == some mark

/-- One more operator or call, unless there are too many. -/
def addOperator (s : State) : Except ParseError State :=
  if maxOperators ≤ s.operators then .error (s.fail .tooManyOperators)
  else .ok { s with operators := s.operators + 1 }

/-- The state after blanks and a mark that has to come next. -/
def expect (mark : Char) (s : State) : Except ParseError State :=
  let s := s.skipBlanks
  if s.startsWith mark then .ok (s.consume 1)
  else .error (s.fail (.expectedMark mark s.found))

/-- The state after blanks and a given word, if that word comes next and ends there. -/
def keyword? (w : List Char) (s : State) : Option State :=
  let s := s.skipBlanks
  if w ≠ [] ∧ s.word = w then some (s.consume w.length) else none

/-- The comparison with which a text starts, if it starts with one. Half of a comparison is
an error. -/
def leadingComparison : List Char → Except ParseFault (Option Comparison)
  | '<' :: '=' :: _ => .ok (some .le)
  | '>' :: '=' :: _ => .ok (some .ge)
  | '=' :: '=' :: _ => .ok (some .eq)
  | '!' :: '=' :: _ => .ok (some .ne)
  | '<' :: _ => .ok (some .lt)
  | '>' :: _ => .ok (some .gt)
  | '=' :: _ => .error .singleEquals
  | '!' :: _ => .error .loneBang
  | _ => .ok none

/-- The comparison that comes after blanks, and the state after it. -/
def comparison? (s : State) : Except ParseError (Option (Comparison × State)) :=
  let s := s.skipBlanks
  match leadingComparison s.rest with
  | .error fault => .error (s.fail fault)
  | .ok none => .ok none
  | .ok (some c) => .ok (some (c, s.consume c.symbol.length))

/-- Whether a number comes next: a digit or a point, or one of them after a sign. -/
def startsNumber (s : State) : Bool :=
  match s.rest with
  | c :: d :: _ => isNumeric c || ((c == '-' || c == '+') && isNumeric d)
  | [c] => isNumeric c
  | [] => false
where
  /-- Whether a character may start an unsigned number. -/
  isNumeric (c : Char) : Bool := c.isDigit || c == '.'

/-- The number that comes next: an optional sign, then digits with at most one point. -/
def number {α : Type} [Scalar α] (s : State) : Except ParseError (α × State) :=
  let signed := splitSign s.rest
  let decimal := LeadingDecimal.read signed.2
  if decimal.hasDigit then
    let size := signLength s.rest + decimal.size
    let x : α := Scalar.ofDecimal signed.1 decimal.magnitude
    if Scalar.isFinite x then .ok (x, s.consume size)
    else .error (s.fail (.numberOutOfRange (s.rest.take size)))
  else .error (s.fail .expectedNumber)

@[simp] theorem length_consume (n : Nat) (s : State) :
    (s.consume n).rest.length = s.rest.length - n := by simp [consume]

/-- Skipping blanks never lengthens what remains. -/
theorem length_skipBlanks_le (s : State) : s.skipBlanks.rest.length ≤ s.rest.length := by
  simp [skipBlanks]

/-- Reading on where something comes next shortens what remains. -/
theorem length_consume_lt {n : Nat} {s : State} (hn : 0 < n) (h : s.rest ≠ []) :
    (s.consume n).rest.length < s.rest.length := by
  have := List.length_pos_iff.2 h
  simp only [length_consume]
  omega

theorem rest_ne_nil_of_startsWith {mark : Char} {s : State} (h : s.startsWith mark = true) :
    s.rest ≠ [] := by
  intro h'
  simp [startsWith, h'] at h

theorem rest_of_addOperator {s t : State} (h : s.addOperator = .ok t) : t.rest = s.rest := by
  unfold addOperator at h
  split at h <;> cases h
  rfl

/-- A mark that had to come next shortens what remains. -/
theorem length_lt_of_expect {mark : Char} {s t : State} (h : s.expect mark = .ok t) :
    t.rest.length < s.rest.length := by
  simp only [expect] at h
  split at h
  · rename_i hs
    cases h
    exact Nat.lt_of_lt_of_le (length_consume_lt Nat.one_pos (rest_ne_nil_of_startsWith hs))
      s.length_skipBlanks_le
  · cases h

/-- A word that came next shortens what remains. -/
theorem length_lt_of_keyword? {w : List Char} {s t : State} (h : s.keyword? w = some t) :
    t.rest.length < s.rest.length := by
  simp only [keyword?] at h
  split at h
  · rename_i hw
    cases h
    have hpos := List.length_pos_iff.2 hw.1
    refine Nat.lt_of_lt_of_le (length_consume_lt hpos ?_) s.length_skipBlanks_le
    intro h'
    exact hw.1 (by simpa [word, h'] using hw.2.symm)
  · cases h

/-- A comparison that came next shortens what remains. -/
theorem length_lt_of_comparison? {s t : State} {c : Comparison}
    (h : s.comparison? = .ok (some (c, t))) : t.rest.length < s.rest.length := by
  simp only [comparison?] at h
  split at h
  · cases h
  · cases h
  · rename_i c' hc
    cases h
    refine Nat.lt_of_lt_of_le (length_consume_lt (by cases c <;> decide) ?_)
      s.length_skipBlanks_le
    intro h'
    rw [h'] at hc
    cases hc

/-- A number that came next shortens what remains. -/
theorem length_lt_of_number {α : Type} [Scalar α] {s t : State} {x : α}
    (h : s.number = .ok (x, t)) : t.rest.length < s.rest.length := by
  simp only [number] at h
  have hsign := signLength_add_length_splitSign s.rest
  have hdec := LeadingDecimal.size_read_add_length_rest (splitSign s.rest).2
  split at h
  · rename_i hdigit
    have := LeadingDecimal.size_pos_of_hasDigit hdigit
    split at h
    · cases h
      simp only [length_consume]
      omega
    · cases h
  · cases h

end State

end TradeRules
