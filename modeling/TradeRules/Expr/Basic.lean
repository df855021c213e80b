import TradeRules.Number.Scalar

/-!
# Rule expressions

The syntax tree of a condition or of a quantity. Names of functions and properties are kept as
they were written; whether they mean anything is decided elsewhere. Operators bind with the
strengths of `BinaryOp.binding`, and all but the comparisons associate to the left.
-/

namespace TradeRules

/-- Comparisons. -/
inductive Comparison where
  | lt
  | gt
  | le
  | ge
  | eq
  | ne
  deriving DecidableEq, Repr

/-- Operations on numbers. -/
inductive Arithmetic where
  | add
  | sub
  | mul
  | div
  deriving DecidableEq, Repr

/-- Operators with two operands. -/
inductive BinaryOp where
  /-- Holds where either operand does. -/
  | or
  /-- Holds where both operands do. -/
  | and
  /-- Compares two numbers, or two truth values. -/
  | compare (c : Comparison)
  /-- Computes a number. -/
  | compute (a : Arithmetic)
  deriving DecidableEq, Repr

/-- A comparison as it is written. -/
def Comparison.symbol : Comparison → String
  | .lt => "<"
  | .gt => ">"
  | .le => "<="
  | .ge => ">="
  | .eq => "=="
  | .ne => "!="

/-- An operation as it is written. -/
def Arithmetic.symbol : Arithmetic → String
  | .add => "+"
  | .sub => "-"
  | .mul => "*"
  | .div => "/"

namespace BinaryOp

/-- An operator as it is written. -/
def symbol : BinaryOp → String
  | .or => "OR"
  | .and => "AND"
  | .compare c => c.symbol
  | .compute a => a.symbol

/-- How strongly an operator binds. Level 3 is that of `NOT`, and 7 that of what needs no
parentheses. -/
def binding : BinaryOp → Nat
  | .or => 1
  | .and => 2
  | .compare _ => 4
  | .compute .add | .compute .sub => 5
  | .compute .mul | .compute .div => 6

/-- Whether an operator is a comparison. -/
def isComparison : BinaryOp → Bool
  | .compare _ => true
  | _ => false

end BinaryOp

/-- A rule expression over a type of numbers. -/
inductive Expr (α : Type) where
  /-- A number. -/
  | literal (x : α)
  /-- The name of a property. -/
  | name (n : String)
  /-- A function name with its arguments. -/
  | call (function : String) (arguments : List (Expr α))
  /-- The negation of a condition. -/
  | not (operand : Expr α)
  /-- An operator between two operands. -/
  | binary (op : BinaryOp) (left right : Expr α)
  deriving Repr

namespace Expr

variable {α : Type}

/-- How strongly the root of an expression binds. -/
def binding : Expr α → Nat
  | .literal _ | .name _ | .call _ _ => 7
  | .not _ => 3
  | .binary op _ _ => op.binding

mutual

/-- The function calls in an expression, in the order in which it is read; the arguments of a
call follow it. -/
def calls : Expr α → List (String × List (Expr α))
  | .literal _ | .name _ => []
  | .call f args => (f, args) :: callsIn args
  | .not e => e.calls
  | .binary _ l r => l.calls ++ r.calls

/-- The function calls in a row of expressions. -/
def callsIn : List (Expr α) → List (String × List (Expr α))
  | [] => []
  | e :: es => e.calls ++ callsIn es

end

mutual

/-- The number of operators and calls in an expression. -/
def operators : Expr α → Nat
  | .literal _ | .name _ => 0
  | .call _ args => 1 + operatorsIn args
  | .not e => 1 + e.operators
  | .binary _ l r => 1 + l.operators + r.operators

/-- The number of operators and calls in a row of expressions. -/
def operatorsIn : List (Expr α) → Nat
  | [] => 0
  | e :: es => e.operators + operatorsIn es

end

/-- A left operand has fewer operators and calls than the whole. -/
theorem operators_left_lt (op : BinaryOp) (l r : Expr α) :
    l.operators < (binary op l r).operators := by
  rw [operators]
  omega

/-- A right operand has fewer operators and calls than the whole. -/
theorem operators_right_lt (op : BinaryOp) (l r : Expr α) :
    r.operators < (binary op l r).operators := by
  rw [operators]
  omega

mutual

/-- Whether two expressions have one shape, with literals of equal value. -/
def agrees [Scalar α] : Expr α → Expr α → Bool
  | .literal x, .literal y => Scalar.same x y
  | .name m, .name n => m == n
  | .call f as, .call g bs => f == g && agreesIn as bs
  | .not a, .not b => a.agrees b
  | .binary o a b, .binary p c d => o == p && a.agrees c && b.agrees d
  | _, _ => false

/-- Whether two rows of expressions agree, one by one. -/
def agreesIn [Scalar α] : List (Expr α) → List (Expr α) → Bool
  | [], [] => true
  | a :: as, b :: bs => a.agrees b && agreesIn as bs
  | _, _ => false

end

end Expr

end TradeRules
