/-!
# Why a text is no expression

A parse error holds its cause and the byte offset at which it was noticed. The wording of every
cause is fixed here, as is the picture with a caret below the text.
-/

namespace TradeRules

/-- How deeply parentheses, argument lists and negations may be nested. -/
def maxNesting : Nat := 256

/-- How many operators and calls an expression may have. -/
def maxOperators : Nat := 1024

/-- What stands where something else was expected. -/
inductive Found where
  /-- A word or a single character. -/
  | text (word : List Char)
  /-- Nothing: the input ends. -/
  | endOfInput
  deriving DecidableEq, Repr

/-- The cause of a parse error. -/
inductive ParseFault where
  /-- The text is blank. -/
  | emptyExpression
  /-- An expression ends before the text does. -/
  | trailingInput (rest : List Char)
  /-- Something else stands in place of an operand. -/
  | expectedOperand (found : Found)
  /-- An operator word stands in place of an operand. -/
  | keywordAsOperand (word : List Char)
  /-- Something else stands in place of a mark. -/
  | expectedMark (mark : Char) (found : Found)
  /-- A number has no digit. -/
  | expectedNumber
  /-- A number is too great. -/
  | numberOutOfRange (text : List Char)
  /-- A single equals sign. -/
  | singleEquals
  /-- An exclamation mark without an equals sign. -/
  | loneBang
  /-- A comparison follows a comparison. -/
  | chainedComparison
  /-- Nesting beyond `maxNesting`. -/
  | tooDeep
  /-- Operators beyond `maxOperators`. -/
  | tooManyOperators
  deriving DecidableEq, Repr

/-- Quotation marks around what was found, or words for the end. -/
def Found.spell : Found → String
  | .text word => "'" ++ String.ofList word ++ "'"
  | .endOfInput => "end of input"

/-- The wording of a cause. -/
def ParseFault.message : ParseFault → String
  | .emptyExpression => "empty expression"
  | .trailingInput rest => "unexpected input after expression: '" ++ String.ofList rest ++ "'"
  | .expectedOperand found => "expected operand, found " ++ found.spell
  | .keywordAsOperand word => "expected operand, found keyword '" ++ String.ofList word ++ "'"
  | .expectedMark mark found =>
    "expected '" ++ String.singleton mark ++ "', found " ++ found.spell
  | .expectedNumber => "expected number"
  | .numberOutOfRange text => "number out of range: " ++ String.ofList text
  | .singleEquals => "unexpected '=', use '==' for equality"
  | .loneBang => "unexpected '!', use '!=' or NOT"
  | .chainedComparison => "comparisons cannot be chained; use AND or parentheses"
  | .tooDeep => "expression nested deeper than " ++ toString maxNesting ++ " levels"
  | .tooManyOperators => "expression has more than " ++ toString maxOperators ++ " operators"

/-- A cause and where it was noticed. -/
structure ParseError where
  /-- The cause. -/
  fault : ParseFault
  /-- The number of bytes before it. -/
  position : Nat
  deriving DecidableEq, Repr

namespace ParseError

/-- The wording of an error with its place. -/
def message (e : ParseError) : String :=
  "parse error at position " ++ toString e.position ++ ": " ++ e.fault.message

/-- The text, a line with as many blanks as bytes before the error and a caret, and the error. -/
def picture (e : ParseError) (text : String) : String :=
  text ++ "\n" ++ String.ofList (List.replicate e.position ' ') ++ "^\n" ++ e.message

end ParseError

end TradeRules
