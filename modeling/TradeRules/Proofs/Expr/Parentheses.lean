import Mathlib.Order.Bounds.Basic
import TradeRules.Proofs.Expr.Canonical
import TradeRules.Proofs.Expr.Unambiguous

/-!
# The canonical text has the fewest parentheses

`parentheses` counts the opening parentheses that a tree calls for: one for each call, and one
around each operand that binds too weakly for its place. Its canonical text has just these, and
the grammar derives a tree from no text that has fewer. As a text is nested to one depth only,
rendering what was accepted adds neither parentheses nor nesting.
-/

namespace TradeRules

open Text Number Grammar

namespace Expr

variable {α : Type}

mutual

/-- How many opening parentheses the tree calls for. -/
def parentheses : Expr α → Nat
  | .literal _ | .name _ => 0
  | .call _ args => parenthesesIn args + 1
  | .not e => nestedIf (e.binding < 3) e.parentheses
  | .binary op l r =>
    nestedIf (op.wrapsLeft l.binding) l.parentheses +
      nestedIf (op.wrapsRight r.binding) r.parentheses

/-- How many opening parentheses a row of expressions calls for. -/
def parenthesesIn : List (Expr α) → Nat
  | [] => 0
  | e :: es => e.parentheses + parenthesesIn es

end

end Expr

/-- Where parentheses that may be called for fit, their contents do. -/
theorem le_of_nestedIf_add_le {needed : Bool} {n k m : Nat} (h : nestedIf needed n + k ≤ m) :
    n + k ≤ m :=
  Nat.le_trans (Nat.add_le_add_right (le_nestedIf needed n) k) h

namespace Grammar

section Tokens

variable {w s r : List Char}

/-- Blanks are no parentheses. -/
theorem count_trimStart (s : List Char) : (trimStart s).count '(' = s.count '(' := by
  have hblank : '(' ∉ s.takeWhile isBlank := fun h => by
    have := List.mem_takeWhile_imp h
    cases this
  conv_rhs => rw [← List.takeWhile_append_dropWhile (p := isBlank) (l := s)]
  rw [List.count_append, List.count_eq_zero.2 hblank, Nat.zero_add]
  rfl

/-- The parentheses before a token are its own and those after it. -/
theorem Token.count_eq (h : Token w s r) : w.count '(' + r.count '(' = s.count '(' := by
  rw [← count_trimStart s, h, List.count_append]

/-- A token takes parentheses away, if anything. -/
theorem Token.count_le (h : Token w s r) : r.count '(' ≤ s.count '(' := by
  rw [← h.count_eq]
  exact Nat.le_add_left _ _

/-- An opening parenthesis counts. -/
theorem Token.count_opening (h : Token ['('] s r) : r.count '(' + 1 = s.count '(' := by
  rw [← h.count_eq, Nat.add_comm]
  rfl

/-- The parentheses of two operands add up across their operator. -/
theorem Operator.parentheses_le {op : BinaryOp} {s₁ s₂ : List Char} {m n : Nat}
    (operator : Operator op s₁ s₂) (left : m + s₁.count '(' ≤ s.count '(')
    (right : n + r.count '(' ≤ s₂.count '(') : m + n + r.count '(' ≤ s.count '(' := by
  have hoperator := operator.token.count_le
  omega

/-- A number takes parentheses away, if anything. -/
theorem NumberToken.count_le {α : Type} [Scalar α] {x : α} (h : NumberToken s x r) :
    r.count '(' ≤ s.count '(' := by
  obtain ⟨_, _, -, d, -, -, rfl, htoken, -, -⟩ := h
  exact htoken.count_le

end Tokens

variable {α : Type} [Scalar α]

mutual

/-- What a phrase takes of a text has at least the parentheses that its tree calls for, among them
those around the tree where it needs them at the level of the phrase. -/
theorem Phrase.parentheses_le {p d : Nat} {s r : List Char} {e : Expr α} :
    Phrase p d s e r → nestedIf (e.binding < p) e.parentheses + r.count '(' ≤ s.count '('
  | .tighter inner =>
    Nat.le_trans (Nat.add_le_add_right (nestedIf_le_succ _ p _) _) inner.parentheses_le
  | .row associates left operator right => by
    rw [Expr.binding, nestedIf_self, Expr.parentheses, BinaryOp.wrapsLeft_of_associates associates,
      BinaryOp.wrapsRight_eq]
    exact operator.parentheses_le left.parentheses_le right.parentheses_le
  | .comparison left operator right => by
    rw [Expr.binding, BinaryOp.binding, nestedIf_self, Expr.parentheses, BinaryOp.wrapsLeft_compare,
      BinaryOp.wrapsRight_eq]
    exact operator.parentheses_le left.parentheses_le right.parentheses_le
  | .negation keyword operand =>
    Nat.le_trans operand.parentheses_le keyword.1.count_le
  | .group opening inner closing => by
    have hinner := le_of_nestedIf_add_le inner.parentheses_le
    have houter := nestedIf_le (decide (e.binding < 7)) e.parentheses
    have hopening := opening.count_opening
    have hclosing := closing.count_le
    omega
  | .literal number => (Nat.zero_add _).trans_le number.count_le
  | .name _ word => (Nat.zero_add _).trans_le word.1.count_le
  | .call _ word arguments => Nat.le_trans arguments.parentheses_le word.1.count_le

/-- The same of an argument list, whose parentheses are always written. -/
theorem Arguments.parentheses_le {d : Nat} {s r : List Char} {as : List (Expr α)} :
    Arguments d s as r → Expr.parenthesesIn as + 1 + r.count '(' ≤ s.count '('
  | .none opening closing => by
    have hopening := opening.count_opening
    have hclosing := closing.count_le
    rw [Expr.parenthesesIn]
    omega
  | .some opening row closing => by
    have hopening := opening.count_opening
    have hrow := row.parentheses_le
    have hclosing := closing.count_le
    omega

/-- The same of a row of phrases. -/
theorem Phrases.parentheses_le {d : Nat} {s r : List Char} {as : List (Expr α)} :
    Phrases d s as r → Expr.parenthesesIn as + r.count '(' ≤ s.count '('
  | .one only => by
    have honly := le_of_nestedIf_add_le only.parentheses_le
    rw [Expr.parenthesesIn, Expr.parenthesesIn]
    omega
  | .more first comma others => by
    have hfirst := le_of_nestedIf_add_le first.parentheses_le
    have hcomma := comma.count_le
    have hothers := others.parentheses_le
    rw [Expr.parenthesesIn]
    omega

end

/-- No text of a tree has fewer parentheses than the tree calls for. -/
theorem Derives.parentheses_le {d : Nat} {t : List Char} {e : Expr α} (h : Derives d t e) :
    e.parentheses ≤ t.count '(' := by
  obtain ⟨r, hphrase, -⟩ := h
  have hle := le_of_nestedIf_add_le hphrase.parentheses_le
  omega

end Grammar

namespace Expr

/-- Parentheses that are called for count. -/
theorem count_parenthesized (needed : Bool) (s : List Char) :
    (parenthesized needed s).count '(' = nestedIf needed (s.count '(') := by
  cases needed with
  | false => rfl
  | true => simp [parenthesized, nestedIf]

/-- There is no parenthesis in a name. -/
theorem count_name {n : List Char} (h : IsName n) : n.count '(' = 0 := by
  refine List.count_eq_zero.2 fun hmem => ?_
  cases List.all_eq_true.1 h.2.1 '(' hmem

/-- There is no parenthesis in the symbol of an operator. -/
theorem count_symbol (op : BinaryOp) : op.symbol.toList.count '(' = 0 := by
  cases op with
  | or | and => rfl
  | compare c => cases c <;> rfl
  | compute a => cases a <;> rfl

/-- There is no parenthesis in a decimal. -/
theorem count_decimal (d : Decimal) : d.spell.count '(' = 0 := by
  refine List.count_eq_zero.2 fun hmem => ?_
  rcases Decimal.isDigit_or_eq_of_mem_spell hmem with h | h <;> cases h

/-- There is no parenthesis in a finite number. -/
theorem count_literal {α : Type} [Scalar α] [ReadsBack α] {x : α}
    (hx : Scalar.isFinite x = true) : (Scalar.spell x).count '(' = 0 := by
  obtain ⟨sign, negative, hsign, d, hspell, -⟩ := ReadsBack.spell_finite x hx
  rw [hspell, List.count_append, count_decimal]
  cases hsign <;> rfl

variable {α : Type} [Scalar α]

mutual

/-- The canonical text of a legible tree has the parentheses that the tree calls for. -/
theorem count_spell [ReadsBack α] : ∀ e : Expr α, e.Legible → e.spell.count '(' = e.parentheses
  | .literal _, h => count_literal h
  | .name _, h => count_name h
  | .call f args, h => by
    simp [spell, parentheses, count_name h.1, count_spellArguments args h.2]
  | .not e, h => by
    rw [spell, parentheses, List.count_append, count_parenthesized, count_spell e h]
    exact Nat.zero_add _
  | .binary op a b, h => by
    simp [spell, parentheses, count_parenthesized, count_symbol, count_spell a h.1,
      count_spell b h.2]

/-- The text of a row of legible arguments has the parentheses that they call for. -/
theorem count_spellArguments [ReadsBack α] : ∀ es : List (Expr α), LegibleIn es →
    (spellArguments es).count '(' = parenthesesIn es
  | [], _ => rfl
  | [e], h => by simp [spellArguments, parenthesesIn, count_spell e h.1]
  | e :: e' :: es, h => by
    have hothers := count_spellArguments (e' :: es) h.2
    change (e.spell ++ ',' :: ' ' :: spellArguments (e' :: es)).count '(' = _
    rw [parenthesesIn, List.count_append, count_spell e h.1, ← hothers]
    rfl

end

/-- The canonical text of what was accepted has no more parentheses than the text, and is nested no
more deeply; each of the two texts is nested to one depth only. The canonical text is accepted as
the same tree, so that no accepted text of that tree has fewer parentheses. -/
theorem fewest_parentheses {t : List Char} {e : Expr Float} (h : parse t = .ok e) :
    e.spell.count '(' ≤ t.count '(' ∧
      (∃ d d', (∀ n, Derives n t e ↔ n = d) ∧ (∀ n, Derives n e.spell e ↔ n = d') ∧ d' ≤ d) ∧
      IsLeast {n | ∃ t', parse t' = .ok e ∧ t'.count '(' = n} (e.spell.count '(') := by
  have hreadable := readable_of_parse h
  have hcount : ∀ {t' : List Char}, parse t' = .ok e → e.spell.count '(' ≤ t'.count '(' := by
    intro t' h'
    obtain ⟨⟨d, -, hderives⟩, -⟩ := derives_of_parse h'
    rw [count_spell e hreadable.legible]
    exact hderives.parentheses_le
  obtain ⟨⟨d, -, hderives⟩, -⟩ := derives_of_parse h
  have hdepth := fun n => hderives.iff_eq (n := n) hreadable.operators_le
  have hdepth' := fun n => (derives_spell hreadable.legible).iff_eq (n := n) hreadable.operators_le
  refine ⟨hcount h, ⟨d, e.nesting, hdepth, hdepth', hderives.nesting_le⟩,
    ⟨e.spell, parse_spell hreadable, rfl⟩, ?_⟩
  rintro n ⟨t', h', rfl⟩
  exact hcount h'

/-- Of the six parentheses of a text only two are called for. -/
theorem fewest_parentheses_product :
    ∃ e : Expr Float, parse "((a)) * ((b + f((1.50))))".toList = .ok e ∧
      e.spell = "a * (b + f(1.5))".toList ∧
      IsLeast {n | ∃ t', parse t' = .ok e ∧ t'.count '(' = n} 2 := by
  have hspell : (parse (α := Float) "((a)) * ((b + f((1.50))))".toList).toOption.map spell =
      some "a * (b + f(1.5))".toList := by decide +kernel
  cases hparse : parse (α := Float) "((a)) * ((b + f((1.50))))".toList with
  | error err =>
    rw [hparse] at hspell
    cases hspell
  | ok e =>
    rw [hparse] at hspell
    have htext : e.spell = "a * (b + f(1.5))".toList := Option.some.inj hspell
    have hleast := (fewest_parentheses hparse).2.2
    rw [htext] at hleast
    exact ⟨e, rfl, htext, hleast⟩

end Expr

end TradeRules
