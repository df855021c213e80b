import TradeRules.Expr.Basic

/-!
# The canonical text of an expression

Parentheses stand only where the tree needs them: around a left operand that binds less strongly
than its operator, or as strongly where the operator is a comparison; around a right operand that
does not bind more strongly; and around the operand of `NOT` that binds less strongly. One blank
stands on either side of an operator and after a comma.
-/

namespace TradeRules

/-- A text in parentheses, where they are called for. -/
def parenthesized (needed : Bool) (text : List Char) : List Char :=
  if needed then '(' :: text ++ [')'] else text

namespace BinaryOp

/-- Whether a left operand needs parentheses. -/
def wrapsLeft (op : BinaryOp) (operand : Nat) : Bool :=
  operand < op.binding || (op.isComparison && operand == op.binding)

/-- Whether a right operand needs parentheses. -/
def wrapsRight (op : BinaryOp) (operand : Nat) : Bool := operand ≤ op.binding

end BinaryOp

namespace Expr

variable {α : Type} [Scalar α]

mutual

/-- The canonical text. -/
def spell : Expr α → List Char
  | .literal x => Scalar.spell x
  | .name n => n.toList
  | .call f args => f.toList ++ '(' :: spellArguments args ++ [')']
  | .not e => "NOT ".toList ++ parenthesized (e.binding < 3) e.spell
  | .binary op l r =>
    parenthesized (op.wrapsLeft l.binding) l.spell ++
      ' ' :: op.symbol.toList ++ ' ' :: parenthesized (op.wrapsRight r.binding) r.spell

/-- The text of a row of arguments. -/
def spellArguments : List (Expr α) → List Char
  | [] => []
  | [e] => e.spell
  | e :: es => e.spell ++ ',' :: ' ' :: spellArguments es

end

/-- The canonical text as a string. -/
def text (e : Expr α) : String := String.ofList e.spell

end Expr

end TradeRules
