import TradeRules.Expr.Printer
import TradeRules.Proofs.Expr.Grammar

/-!
# Legible trees and the nesting of their canonical texts

A tree need not come from a text. It is legible where its names are names and its literals are
finite, and readable where its canonical text keeps the limits of the parser as well. `nesting`
counts the levels of that text along the tree. Every tree that the grammar derives is legible, and
no text of a tree is nested less deeply than the canonical one (`Grammar.Derives.nesting_le`).
-/

namespace TradeRules

open Grammar

/-- One more level of nesting, where parentheses are called for. -/
def nestedIf (needed : Bool) (n : Nat) : Nat := if needed then n + 1 else n

theorem le_nestedIf (needed : Bool) (n : Nat) : n ≤ nestedIf needed n := by
  cases needed with
  | false => exact Nat.le_refl n
  | true => exact Nat.le_succ n

theorem nestedIf_le (needed : Bool) (n : Nat) : nestedIf needed n ≤ n + 1 := by
  cases needed with
  | false => exact Nat.le_succ n
  | true => exact Nat.le_refl (n + 1)

/-- Parentheses that are called for more often nest no less. -/
theorem nestedIf_mono {b c : Bool} (h : b = true → c = true) (n : Nat) :
    nestedIf b n ≤ nestedIf c n := by
  cases b with
  | false => exact le_nestedIf c n
  | true => exact Nat.le_of_eq (by rw [h rfl])

/-- Parentheses that are called for at a level are called for at the next. -/
theorem nestedIf_le_succ (b p n : Nat) :
    nestedIf (decide (b < p)) n ≤ nestedIf (decide (b < p + 1)) n :=
  nestedIf_mono (fun h => decide_eq_true (Nat.lt_succ_of_lt (of_decide_eq_true h))) n

/-- What binds as strongly as it is asked to is not nested further. -/
theorem nestedIf_self (p n : Nat) : nestedIf (decide (p < p)) n = n := by
  rw [decide_eq_false (Nat.lt_irrefl p)]
  rfl

/-- Operators bind at least as strongly as `OR`, and less strongly than what needs no
parentheses. -/
theorem BinaryOp.binding_bounds (op : BinaryOp) : 1 ≤ op.binding ∧ op.binding ≤ 6 := by
  cases op with
  | or | and | compare _ => simp [binding]
  | compute a => cases a <;> simp [binding]

namespace BinaryOp

/-- The left operand in a row needs parentheses where it binds less strongly than the row. -/
theorem wrapsLeft_of_associates {op : BinaryOp} (h : op.isComparison = false) (n : Nat) :
    op.wrapsLeft n = decide (n < op.binding) := by
  rw [wrapsLeft, h, Bool.false_and, Bool.or_false]

/-- The left operand of a comparison needs parentheses where it binds no more strongly. -/
theorem wrapsLeft_compare (c : Comparison) (n : Nat) :
    (compare c).wrapsLeft n = decide (n < 5) := by
  change (decide (n < 4) || (true && n == 4)) = decide (n < 5)
  rw [Bool.eq_iff_iff]
  simp only [Bool.true_and, Bool.or_eq_true, decide_eq_true_eq, beq_iff_eq]
  omega

/-- A right operand needs parentheses where it binds less strongly than the next level. -/
theorem wrapsRight_eq (op : BinaryOp) (n : Nat) :
    op.wrapsRight n = decide (n < op.binding + 1) := by
  rw [wrapsRight, Bool.eq_iff_iff, decide_eq_true_iff, decide_eq_true_iff, Nat.lt_succ_iff]

end BinaryOp

namespace Expr

variable {α : Type}

mutual

/-- How deeply parentheses, `NOT` and argument lists with an argument are nested in the canonical
text. -/
def nesting : Expr α → Nat
  | .literal _ | .name _ => 0
  | .call _ args => nestedIf (!args.isEmpty) (nestingIn args)
  | .not e => nestedIf (e.binding < 3) e.nesting + 1
  | .binary op l r =>
    max (nestedIf (op.wrapsLeft l.binding) l.nesting) (nestedIf (op.wrapsRight r.binding) r.nesting)

/-- How deeply the deepest of a row of expressions is nested. -/
def nestingIn : List (Expr α) → Nat
  | [] => 0
  | e :: es => max e.nesting (nestingIn es)

end

mutual

/-- Whether the names of an expression are names and its literals are finite. -/
def Legible [Scalar α] : Expr α → Prop
  | .literal x => Scalar.isFinite x = true
  | .name n => IsName n.toList
  | .call f args => IsName f.toList ∧ LegibleIn args
  | .not e => e.Legible
  | .binary _ l r => l.Legible ∧ r.Legible

/-- Whether each of a row of expressions is legible. -/
def LegibleIn [Scalar α] : List (Expr α) → Prop
  | [] => True
  | e :: es => e.Legible ∧ LegibleIn es

end

/-- What an expression needs for its canonical text to be accepted. -/
structure Readable [Scalar α] (e : Expr α) : Prop where
  /-- Its names are names, and its literals are finite. -/
  legible : e.Legible
  /-- Its canonical text is not nested too deeply. -/
  nesting_le : e.nesting ≤ maxNesting
  /-- It has not too many operators and calls. -/
  operators_le : e.operators ≤ maxOperators

/-- Every expression binds at least as strongly as `OR` does. -/
theorem binding_pos (e : Expr α) : 1 ≤ e.binding := by
  cases e with
  | binary op l r => exact op.binding_bounds.1
  | literal _ | name _ | call _ _ | not _ => simp [binding]

end Expr

namespace Grammar

variable {α : Type} [Scalar α]

mutual

/-- A phrase is nested at least as deeply as the canonical text of its tree, parentheses included
where the tree needs them at the level of the phrase. -/
theorem Phrase.nesting_le {p d : Nat} {s r : List Char} {e : Expr α} :
    Phrase p d s e r → nestedIf (e.binding < p) e.nesting ≤ d
  | .tighter inner => Nat.le_trans (nestedIf_le_succ _ p _) inner.nesting_le
  | .row associates left _ right => by
    rw [Expr.binding, nestedIf_self, Expr.nesting, BinaryOp.wrapsLeft_of_associates associates,
      BinaryOp.wrapsRight_eq]
    exact Nat.max_le.2 ⟨Nat.le_trans left.nesting_le (Nat.le_max_left ..),
      Nat.le_trans right.nesting_le (Nat.le_max_right ..)⟩
  | .comparison left _ right => by
    rw [Expr.binding, BinaryOp.binding, nestedIf_self, Expr.nesting, BinaryOp.wrapsLeft_compare,
      BinaryOp.wrapsRight_eq]
    exact Nat.max_le.2 ⟨Nat.le_trans left.nesting_le (Nat.le_max_left ..),
      Nat.le_trans right.nesting_le (Nat.le_max_right ..)⟩
  | .negation _ operand => Nat.succ_le_succ operand.nesting_le
  | .group _ inner _ => by
    have h := Nat.le_trans (le_nestedIf _ _) inner.nesting_le
    exact Nat.le_trans (nestedIf_le _ _) (Nat.succ_le_succ h)
  | .literal _ => Nat.le_refl 0
  | .name _ _ => Nat.le_refl 0
  | .call _ _ arguments => arguments.nesting_le

/-- The same of an argument list. -/
theorem Arguments.nesting_le {d : Nat} {s r : List Char} {as : List (Expr α)} :
    Arguments d s as r → nestedIf (!as.isEmpty) (Expr.nestingIn as) ≤ d
  | .none _ _ => Nat.le_refl 0
  | .some _ row _ => Nat.le_trans (nestedIf_le _ _) (Nat.succ_le_succ row.nesting_le)

/-- The same of a row of phrases. -/
theorem Phrases.nesting_le {d : Nat} {s r : List Char} {as : List (Expr α)} :
    Phrases d s as r → Expr.nestingIn as ≤ d
  | .one only => Nat.max_le.2 ⟨Nat.le_trans (le_nestedIf _ _) only.nesting_le, Nat.zero_le _⟩
  | .more first _ others => by
    have hfirst := Nat.le_trans (le_nestedIf _ _) first.nesting_le
    have hothers := others.nesting_le
    simp only [Expr.nestingIn]
    omega

end

mutual

/-- What a phrase means is legible. -/
theorem Phrase.legible {p d : Nat} {s r : List Char} {e : Expr α} :
    Phrase p d s e r → e.Legible
  | .tighter inner => inner.legible
  | .row _ left _ right => ⟨left.legible, right.legible⟩
  | .comparison left _ right => ⟨left.legible, right.legible⟩
  | .negation _ operand => operand.legible
  | .group _ inner _ => inner.legible
  | .literal ⟨_, _, _, _, _, _, _, _, _, finite⟩ => finite
  | .name valid _ => by
    rw [Expr.Legible, String.toList_ofList]
    exact valid
  | .call valid _ arguments => by
    rw [Expr.Legible, String.toList_ofList]
    exact ⟨valid, arguments.legible⟩

/-- What an argument list means is legible. -/
theorem Arguments.legible {d : Nat} {s r : List Char} {as : List (Expr α)} :
    Arguments d s as r → Expr.LegibleIn as
  | .none _ _ => trivial
  | .some _ row _ => row.legible

/-- What a row of phrases means is legible. -/
theorem Phrases.legible {d : Nat} {s r : List Char} {as : List (Expr α)} :
    Phrases d s as r → Expr.LegibleIn as
  | .one only => ⟨only.legible, trivial⟩
  | .more first _ others => ⟨first.legible, others.legible⟩

end

/-- No text of a tree is nested less deeply than its canonical text. -/
theorem Derives.nesting_le {d : Nat} {t : List Char} {e : Expr α} (h : Derives d t e) :
    e.nesting ≤ d := by
  obtain ⟨r, hphrase, -⟩ := h
  exact Nat.le_trans (le_nestedIf _ _) hphrase.nesting_le

/-- What is derived is legible. -/
theorem Derives.legible {d : Nat} {t : List Char} {e : Expr α} (h : Derives d t e) :
    e.Legible := by
  obtain ⟨r, hphrase, -⟩ := h
  exact hphrase.legible

end Grammar

end TradeRules
