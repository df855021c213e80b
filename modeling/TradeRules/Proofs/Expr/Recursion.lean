import TradeRules.Proofs.Expr.Balance
import TradeRules.Proofs.Expr.Offsets

/-!
# The bounds of the recursion

A procedure that is at work twice was called again at a deeper level, as the ranks of those at work
descend. There are only so many levels, so each procedure is at work only so often
(`Cursor.atWork_le`). A tree is no higher than one node above the operators and calls in it, and of
these there are only so many in a tree that was read (`Expr.recursion_bounded`).
-/

namespace TradeRules

open Text Number Steps

/-! ### How often a procedure is at work -/

/-- A list that descends from below a bound is no longer than that. -/
theorem length_le_of_descending {β : Type} {f : β → Nat} {l : List β} {n : Nat}
    (h : l.Pairwise fun inner outer => f outer < f inner) (hn : ∀ a ∈ l, f a < n) :
    l.length ≤ n := by
  induction l generalizing n with
  | nil => exact Nat.zero_le n
  | cons a l ih =>
    obtain ⟨ha, hl⟩ := List.pairwise_cons.1 h
    -- The rest descends from below its first element, so it is shorter than the bound.
    exact Nat.lt_of_le_of_lt (ih hl ha) (hn a List.mem_cons_self)

/-- Of two calls of one procedure the one of the higher rank is nested more deeply. -/
theorem Activation.depth_lt {inner outer : Activation} (hrank : outer.rank < inner.rank)
    (h : inner.procedure = outer.procedure) : outer.depth < inner.depth := by
  rw [rank, rank, h] at hrank
  omega

namespace Stacked

variable {active : List Activation}

/-- A procedure is called again only behind a level that was entered in between. -/
theorem enters (h : Stacked active) :
    active.Pairwise fun inner outer =>
      inner.procedure = outer.procedure → outer.depth < inner.depth :=
  h.descending.imp Activation.depth_lt

/-- The calls of one procedure are nested one more deeply than the other. -/
theorem depth_descending (h : Stacked active) (p : Procedure) :
    (active.filter fun a => a.procedure = p).Pairwise fun inner outer =>
      outer.depth < inner.depth := by
  refine List.pairwise_filter.2 (h.enters.imp fun hlt hinner houter => hlt ?_)
  rw [of_decide_eq_true hinner, of_decide_eq_true houter]

end Stacked

namespace Cursor

/-- How often a procedure is at work. -/
def atWork (c : Cursor) (p : Procedure) : Nat := c.active.countP fun a => a.procedure = p

/-- No procedure is at work more often than once for each level. -/
theorem atWork_le {text : List Char} {c : Cursor} (h : c.Sound text) (p : Procedure) :
    c.atWork p ≤ maxNesting + 1 := by
  rw [atWork, List.countP_eq_length_filter]
  refine length_le_of_descending (h.stacked.depth_descending p) fun a ha => ?_
  exact Nat.lt_succ_of_le (h.stacked.depth_le a (List.mem_of_mem_filter ha))

end Cursor

/-! ### Heights -/

namespace Expr

variable {α : Type}

mutual

/-- The number of nodes on the longest branch of an expression. -/
def height : Expr α → Nat
  | .literal _ | .name _ => 1
  | .call _ args => heightIn args + 1
  | .not e => e.height + 1
  | .binary _ l r => max l.height r.height + 1

/-- The number of nodes on the longest branch in a row of expressions. -/
def heightIn : List (Expr α) → Nat
  | [] => 0
  | e :: es => max e.height (heightIn es)

end

mutual

/-- Each node of a branch is an operator or a call, but for the last one. -/
theorem height_le (e : Expr α) : e.height ≤ e.operators + 1 := by
  cases e with
  | literal x => exact Nat.le_refl 1
  | name n => exact Nat.le_refl 1
  | call f args =>
    have hargs := heightIn_le args
    rw [height, operators]
    omega
  | not e =>
    have he := height_le e
    rw [height, operators]
    omega
  | binary op l r =>
    have hl := height_le l
    have hr := height_le r
    rw [height, operators]
    omega

/-- In a row it may be that each branch ends in a leaf. -/
theorem heightIn_le (es : List (Expr α)) : heightIn es ≤ operatorsIn es + 1 := by
  cases es with
  | nil => exact Nat.zero_le _
  | cons e es =>
    have he := height_le e
    have hes := heightIn_le es
    rw [heightIn, operatorsIn]
    omega

end

variable [Scalar α]

/-- The run over a text ends, with the tree or the error of `ofString`. Up to there the nesting
stays within one level of the limit, a procedure is called from within itself only behind a level
that was entered in between, and so none is at work more often than once for each level. Every call
that returns has left the levels that it entered, has passed a byte, and has counted the operators
and calls of what it returns. So no tree is higher than one node above the limit on these. -/
theorem recursion_bounded (text : String) :
    outcome text.toList = (ofString text : Except ParseError (Expr α)).mapError .refused ∧
      (∀ c ∈ cursors α text.toList, c.depth ≤ maxNesting + 1 ∧
        (c.active.Pairwise fun inner outer =>
          inner.procedure = outer.procedure → outer.depth < inner.depth) ∧
        ∀ p, c.atWork p ≤ maxNesting + 1) ∧
      (∀ (n : Nat) (p : Procedure) (trail trail' : Trail) (v : p.Yield α),
        Returns (Steps.call text.toList n p) trail v trail' →
          trail'.now.depth = trail.now.depth ∧ trail.now.position < trail'.now.position ∧
          trail'.now.operators = trail.now.operators + p.nodes v) ∧
      ∀ e : Expr α, ofString text = .ok e → e.height ≤ maxOperators + 1 := by
  obtain ⟨houtcome, hcursors⟩ := outcome_eq (α := α) text.toList
  refine ⟨houtcome, fun c hc => ?_, fun n p trail trail' v hrun => ?_, fun e he => ?_⟩
  · have hsound := hcursors c hc
    exact ⟨hsound.depth_le, hsound.stacked.enters, Cursor.atWork_le hsound⟩
  · obtain ⟨hdepth, hposition, hoperators⟩ := counts_call text.toList n p hrun
    exact ⟨hdepth, hposition, hoperators⟩
  · obtain ⟨-, hlimit⟩ := derives_of_parse he
    exact (height_le e).trans (Nat.succ_le_succ hlimit)

/-- A comparison in parentheses behind `NOT` is read two levels inside. -/
theorem recursion_bounded_negated_group :
    (∃ c ∈ cursors Float "NOT (close > high)".toList, c.depth = 2 ∧ c.atWork .negation = 3 ∧
      c.depth ≤ maxNesting + 1 ∧ c.atWork .negation ≤ maxNesting + 1) ∧
    (∃ (e : Expr Float) (trail : Trail),
      Returns (Steps.call "NOT (close > high)".toList places .disjunction)
        ⟨⟨0, 0, 0, []⟩, []⟩ e trail ∧
      trail.now.depth = 0 ∧ 0 < trail.now.position ∧ trail.now.operators = 2 ∧
      e.operators = 2) ∧
    ∃ e : Expr Float, ofString "NOT (close > high)" = .ok e ∧ e.height = 3 ∧
      e.height ≤ maxOperators + 1 := by
  obtain ⟨-, hcursors, hcalls, htrees⟩ := recursion_bounded (α := Float) "NOT (close > high)"
  refine ⟨?_, ?_, ?_⟩
  · have hreached : (cursors Float "NOT (close > high)".toList).any
        (fun c => c.depth = 2 && c.atWork .negation = 3) = true := by
      decide +kernel
    obtain ⟨c, hc, hc'⟩ := List.any_eq_true.1 hreached
    obtain ⟨hdepth, -, hwork⟩ := hcursors c hc
    simp only [Bool.and_eq_true, decide_eq_true_eq] at hc'
    exact ⟨c, hc, hc'.1, hc'.2, hdepth, hwork .negation⟩
  · have hcounted : (match (Steps.call "NOT (close > high)".toList places .disjunction :
        Steps (Expr Float)).run ⟨⟨0, 0, 0, []⟩, []⟩ with
        | .ok _ trail => trail.now.operators
        | .error _ _ => 0) = 2 := by
      decide +kernel
    split at hcounted
    · rename_i e trail hrun
      obtain ⟨hdepth, hposition, hoperators⟩ := hcalls places .disjunction _ trail e hrun
      rw [hcounted, Nat.zero_add] at hoperators
      exact ⟨e, trail, hrun, hdepth, hposition, hcounted, hoperators.symm⟩
    · cases hcounted
  · have hheight : (ofString "NOT (close > high)" : Except ParseError (Expr Float)).toOption.map
        height = some 3 := by
      unfold ofString
      decide +kernel
    cases hparse : (ofString "NOT (close > high)" : Except ParseError (Expr Float)) with
    | error err =>
      rw [hparse] at hheight
      cases hheight
    | ok e =>
      rw [hparse] at hheight
      exact ⟨e, rfl, Option.some.inj hheight, htrees e hparse⟩

end Expr

end TradeRules
