import TradeRules.Proofs.Expr.FirstError

/-!
# Rewriting inside an expression

A surrounding is an expression in which the place of one node is open. Places inside the arguments of a
call are none of nodes, since nothing is evaluated there. What stands in a surrounding matters only
through what it comes to, be that a value or an error (`Surrounding.eval_fill_congr`). So the laws of De
Morgan, which hold of any two operands, may be applied anywhere in an expression: what is absent
does not hold, as if it were false, and both operands are evaluated before and after
(`Surrounding.eval_fill_deMorgan`).
-/

namespace TradeRules

variable {α : Type}

/-- An expression in which the place of one node is open. -/
inductive Surrounding (α : Type) where
  /-- Nothing but the open place. -/
  | here
  /-- The open place is in the operand of a negation. -/
  | not (operand : Surrounding α)
  /-- The open place is in the left operand of an operator. -/
  | left (op : BinaryOp) (operand : Surrounding α) (right : Expr α)
  /-- The open place is in the right operand of an operator. -/
  | right (op : BinaryOp) (left : Expr α) (operand : Surrounding α)

/-- The expression with something in its open place. -/
def Surrounding.fill : Surrounding α → Expr α → Expr α
  | .here, e => e
  | .not k, e => .not (k.fill e)
  | .left op k r, e => .binary op (k.fill e) r
  | .right op l k, e => .binary op l (k.fill e)

namespace Surrounding

/-- What is in the open place is a node of the whole. -/
theorem mem_nodes_fill (k : Surrounding α) (e : Expr α) : e ∈ (k.fill e).nodes := by
  induction k with
  | here =>
    rw [fill, Expr.nodes_eq]
    exact List.mem_append_right _ (List.mem_singleton_self e)
  | not k ih => exact List.mem_append_left _ ih
  | left op k r ih => exact List.mem_append_left _ (List.mem_append_left _ ih)
  | right op l k ih => exact List.mem_append_left _ (List.mem_append_right _ ih)

/-- Every node stands in a surrounding, and only nodes do. -/
theorem mem_nodes_iff_exists_fill {s e : Expr α} :
    s ∈ e.nodes ↔ ∃ k : Surrounding α, e = k.fill s := by
  constructor
  · intro h
    induction e using Expr.evalInduction with
    | literal x | name n | call f args =>
      rw [List.mem_singleton.1 h]
      exact ⟨.here, rfl⟩
    | not e ih =>
      rcases List.mem_append.1 h with h | h
      · obtain ⟨k, hk⟩ := ih h
        exact ⟨.not k, congrArg Expr.not hk⟩
      · rw [List.mem_singleton.1 h]
        exact ⟨.here, rfl⟩
    | binary op l r ihl ihr =>
      rcases List.mem_append.1 h with h | h
      · rcases List.mem_append.1 h with h | h
        · obtain ⟨k, hk⟩ := ihl h
          exact ⟨.left op k r, by rw [fill, ← hk]⟩
        · obtain ⟨k, hk⟩ := ihr h
          exact ⟨.right op l k, by rw [fill, ← hk]⟩
      · rw [List.mem_singleton.1 h]
        exact ⟨.here, rfl⟩
  · rintro ⟨k, rfl⟩
    exact k.mem_nodes_fill s

variable [Scalar α] {c : Context α}

/-- What stands in a surrounding matters only through what it comes to. -/
theorem eval_fill_congr (k : Surrounding α) {e e' : Expr α} (h : e.eval c = e'.eval c) :
    (k.fill e).eval c = (k.fill e').eval c := by
  induction k with
  | here => exact h
  | not k ih => rw [fill, fill, Expr.eval, Expr.eval, ih]
  | left op k r ih => rw [fill, fill, Expr.eval, Expr.eval, ih]
  | right op l k ih => rw [fill, fill, Expr.eval, Expr.eval, ih]

/-- The negation of an operator is its dual at the negated operands, where both operators always have a
truth value and read their operands only for whether they hold. -/
theorem eval_not_binary {op dual : BinaryOp} {f g : Bool → Bool → Bool}
    (hop : ∀ x y : Value α, Value.apply op x y = .ok (.truth (f x.holds y.holds)))
    (hdual : ∀ x y : Value α, Value.apply dual x y = .ok (.truth (g x.holds y.holds)))
    (hneg : ∀ x y, (!f x y) = g (!x) (!y)) (a b : Expr α) :
    (Expr.not (.binary op a b)).eval c = (Expr.binary dual (.not a) (.not b)).eval c := by
  cases ha : a.eval c with
  | error err => simp only [Expr.eval, ha]
  | ok x =>
    cases hb : b.eval c with
    | error err => simp only [Expr.eval, ha, hb]
    | ok y => simp only [Expr.eval, ha, hb, hop, hdual, hneg, Value.holds]

/-- The laws of De Morgan hold anywhere in an expression, whatever their operands come to: neither the
value nor the error of the whole changes. -/
theorem eval_fill_deMorgan (c : Context α) (k : Surrounding α) (a b : Expr α) :
    (k.fill (.not (.binary .and a b))).eval c =
        (k.fill (.binary .or (.not a) (.not b))).eval c ∧
      (k.fill (.not (.binary .or a b))).eval c =
        (k.fill (.binary .and (.not a) (.not b))).eval c := by
  constructor
  · exact k.eval_fill_congr (eval_not_binary Value.apply_and Value.apply_or Bool.not_and a b)
  · exact k.eval_fill_congr (eval_not_binary Value.apply_or Value.apply_and Bool.not_or a b)

end Surrounding

end TradeRules
