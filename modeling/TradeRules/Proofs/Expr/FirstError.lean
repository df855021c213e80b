import TradeRules.Proofs.Expr.Evaluation

/-!
# Which error an evaluation ends with

Evaluating an expression is passing through its nodes from the left, each after its operands. An
error is raised at a node that fails although all its operands have values (`Expr.raised?`), and the
first error that is raised is the error of the whole (`Expr.error?_eq_findSome?_nodes`): no
operator, not even `AND` or `OR` beside something absent, takes an error back.
-/

namespace TradeRules.Expr

variable {α : Type}

/-- What has to be evaluated before an expression. The arguments of a call are not. -/
def operands : Expr α → List (Expr α)
  | .literal _ | .name _ | .call _ _ => []
  | .not e => [e]
  | .binary _ l r => [l, r]

/-- The nodes that are evaluated, from the left, each after its operands. The arguments of a call
are not among them. -/
def nodes : Expr α → List (Expr α)
  | .literal x => [.literal x]
  | .name n => [.name n]
  | .call f args => [.call f args]
  | .not e => e.nodes ++ [.not e]
  | .binary op l r => l.nodes ++ r.nodes ++ [.binary op l r]

/-- The nodes of an expression are those of its operands, and then the expression itself. -/
theorem nodes_eq (e : Expr α) : e.nodes = e.operands.flatMap nodes ++ [e] := by
  cases e with
  | literal _ | name _ | call _ _ => rfl
  | not e => simp [nodes, operands]
  | binary op l r => simp [nodes, operands]

/-- Induction over what is evaluated of an expression, all operands at once. -/
@[elab_as_elim]
theorem operandInduction {motive : Expr α → Prop}
    (node : ∀ e, (∀ s ∈ e.operands, motive s) → motive e) (e : Expr α) : motive e := by
  induction e using evalInduction with
  | literal _ | name _ | call _ _ => exact node _ (List.forall_mem_nil _)
  | not e ih => exact node _ (List.forall_mem_singleton.2 ih)
  | binary op l r ihl ihr => exact node _ (List.forall_mem_cons.2 ⟨ihl, List.forall_mem_singleton.2 ihr⟩)

/-- What is passed on to operands is passed on to nodes. -/
theorem forall_mem_nodes {P : Expr α → Prop} (hP : ∀ t, P t → ∀ s ∈ t.operands, P s) {e : Expr α}
    (he : P e) : ∀ s ∈ e.nodes, P s := by
  induction e using operandInduction with
  | node e ih =>
    intro s hs
    rw [nodes_eq, List.mem_append, List.mem_flatMap, List.mem_singleton] at hs
    rcases hs with ⟨t, ht, hs⟩ | rfl
    · exact ih t ht (hP e he t ht) s hs
    · exact he

/-- The nodes of a node are nodes of the whole. -/
theorem nodes_subset_of_mem_nodes {s e : Expr α} (h : s ∈ e.nodes) : s.nodes ⊆ e.nodes := by
  refine forall_mem_nodes (P := fun t => t.nodes ⊆ e.nodes) ?_ (List.Subset.refl _) s h
  intro t ht s hs x hx
  apply ht
  rw [nodes_eq]
  exact List.mem_append_left _ (List.mem_flatMap.2 ⟨s, hs, hx⟩)

/-- What is found in the first operand that has it, or else in the expression itself, is what is found
first among the nodes. -/
theorem eq_findSome?_nodes {β : Type} {found own : Expr α → Option β}
    (h : ∀ e, found e = (e.operands.findSome? found).or (own e)) (e : Expr α) :
    found e = e.nodes.findSome? own := by
  induction e using evalInduction with
  | literal x | name n | call f args =>
    rw [h]
    simp [operands, nodes]
  | not e ih =>
    rw [h, nodes, List.findSome?_append, ← ih]
    simp [operands]
  | binary op l r ihl ihr =>
    rw [h, nodes, List.findSome?_append, List.findSome?_append, ← ihl, ← ihr]
    cases hl : found l <;> simp [operands, hl]

variable [Scalar α]

/-- The error that the evaluation of an expression ends with, if it does. -/
def error? (c : Context α) (e : Expr α) : Option (EvalError α) :=
  match e.eval c with
  | .ok _ => none
  | .error err => some err

/-- The error that is raised at an expression itself, all its operands having values. -/
def raised? (c : Context α) (e : Expr α) : Option (EvalError α) :=
  if e.operands.all fun operand => (operand.error? c).isNone then e.error? c else none

/-- There is an error where there is no value. -/
theorem error?_eq_some_iff {c : Context α} {e : Expr α} {err : EvalError α} :
    e.error? c = some err ↔ e.eval c = .error err := by
  rw [error?]
  cases e.eval c <;> simp

/-- The error that is raised at an expression is the one that its evaluation ends with. -/
theorem eval_eq_error_of_raised? {c : Context α} {e : Expr α} {err : EvalError α}
    (h : e.raised? c = some err) : e.eval c = .error err := by
  unfold raised? at h
  split at h
  · exact error?_eq_some_iff.1 h
  · cases h

/-- The error of an expression is that of its first operand with one, or else is raised at the
expression itself. -/
theorem error?_eq_operands (c : Context α) (e : Expr α) :
    e.error? c = (e.operands.findSome? (error? c)).or (e.raised? c) := by
  cases e with
  | literal x | name n | call f args => simp [operands, raised?]
  | not e => cases h : e.eval c <;> simp [operands, raised?, error?, eval, h]
  | binary op l r =>
    cases hl : l.eval c with
    | error err => simp [operands, error?, eval, hl]
    | ok x => cases hr : r.eval c <;> simp [operands, raised?, error?, eval, hl, hr]

/-- The error of an expression is the first one that is raised at a node. -/
theorem error?_eq_findSome?_nodes (c : Context α) (e : Expr α) :
    e.error? c = e.nodes.findSome? (raised? c) :=
  eq_findSome?_nodes (error?_eq_operands c) e

/-- There is an error where one is raised at a node. -/
theorem isSome_error?_iff {c : Context α} {e : Expr α} :
    (e.error? c).isSome = true ↔ ∃ t ∈ e.nodes, (t.raised? c).isSome = true := by
  rw [error?_eq_findSome?_nodes, List.isSome_findSome?, List.any_eq_true]

/-- An expression has no value where one of its nodes has none, whatever the operators around that
node are. Its error is the first one that is raised, which is at a node that fails although all its
operands have values. -/
theorem eval_error_eq_first_raised (c : Context α) (e : Expr α) :
    (∀ s ∈ e.nodes, ∀ err, s.eval c = .error err → ∃ err', e.eval c = .error err') ∧
      ∀ err, e.eval c = .error err ↔ ∃ before s after, e.nodes = before ++ s :: after ∧
        s.raised? c = some err ∧ ∀ t ∈ before, t.raised? c = none := by
  constructor
  · intro s hs err herror
    have hsome : (s.error? c).isSome = true := by
      rw [error?_eq_some_iff.2 herror]
      rfl
    obtain ⟨t, ht, hraised⟩ := isSome_error?_iff.1 hsome
    have hwhole : (e.error? c).isSome = true :=
      isSome_error?_iff.2 ⟨t, nodes_subset_of_mem_nodes hs ht, hraised⟩
    obtain ⟨err', herror'⟩ := Option.isSome_iff_exists.1 hwhole
    exact ⟨err', error?_eq_some_iff.1 herror'⟩
  · intro err
    rw [← error?_eq_some_iff, error?_eq_findSome?_nodes, List.findSome?_eq_some_iff]

end TradeRules.Expr
