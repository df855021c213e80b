import TradeRules.Proofs.Expr.Completeness

/-!
# No text is read in two ways

A text has one derivation in all that counts: the tree, the depth of nesting and the text that is
left are the same for any two. That the trees are the same is due to the parser, which finds
every derived tree and is a function. The depth takes another look at the derivations. Either a
tree stands in parentheses or it stands `Bare`, as its root says, and never both: the parentheses
that an operation would stand in are also those at the front of its first operand, where a smaller
tree would then be read from the same text.
-/

namespace TradeRules.Grammar

open Text Number

section Tokens

variable {w s r r' : List Char}

/-- What follows a token is determined. -/
theorem Token.rest_eq (h : Token w s r) (h' : Token w s r') : r = r' :=
  List.append_cancel_left (h.symm.trans h')

/-- The symbol of an operator is a token. -/
theorem Operator.token {op : BinaryOp} (h : Operator op s r) : Token op.symbol.toList s r := by
  cases op with
  | or | and => exact h.1
  | compare _ | compute _ => exact h

/-- What follows a number is determined. -/
theorem NumberToken.rest_eq {α : Type} [Scalar α] {x : α} (h : NumberToken s x r)
    (h' : NumberToken s x r') : r = r' := by
  obtain ⟨t, hnumber, hrest, -⟩ := State.number_of_numberToken (s := State.start s) h
  obtain ⟨t', hnumber', hrest', -⟩ := State.number_of_numberToken (s := State.start s) h'
  rw [hnumber] at hnumber'
  cases hnumber'
  exact hrest.symm.trans hrest'

end Tokens

variable {α : Type} [Scalar α]

/-- Two phrases that start together, and that nothing after them pulls at, mean the same tree. -/
theorem Phrase.tree_eq {p d d' : Nat} {s r r' : List Char} {e e' : Expr α}
    (h : Phrase p d s e r) (h' : Phrase p d' s e' r') (hr : pull r < p) (hr' : pull r' < p)
    (hlimit : e.operators ≤ maxOperators) (hlimit' : e'.operators ≤ maxOperators) : e = e' := by
  have hstart : (State.start s).Before s 0 := .of_eq rfl rfl
  obtain ⟨t, hrun, -⟩ := (h.completes (Nat.le_max_left d d')).1 hstart (by omega) hr
  obtain ⟨t', hrun', -⟩ := (h'.completes (Nat.le_max_right d d')).1 hstart (by omega) hr'
  rw [hrun] at hrun'
  cases hrun'
  rfl

/-- Trees that stand in the same parentheses are the same. -/
theorem InGroup.tree_eq {d d' : Nat} {s r r' : List Char} {e e' : Expr α} (h : InGroup d s e r)
    (h' : InGroup d' s e' r') (hlimit : e.operators ≤ maxOperators)
    (hlimit' : e'.operators ≤ maxOperators) : e = e' := by
  obtain ⟨n, s₁, s₂, -, opening, inner, closing⟩ := h
  obtain ⟨n', s₁', s₂', -, opening', inner', closing'⟩ := h'
  have hrest : s₁ = s₁' := opening.rest_eq opening'
  subst hrest
  refine inner.tree_eq inner' ?_ ?_ hlimit hlimit'
  · rw [pull_of_token rfl closing]
    exact Nat.one_pos
  · rw [pull_of_token rfl closing']
    exact Nat.one_pos

/-- A tree that stands bare does not stand in parentheses. -/
theorem Bare.not_inGroup {d d' : Nat} {s r r' : List Char} {e : Expr α}
    (hlimit : e.operators ≤ maxOperators) (h : Bare d s e r) : ¬InGroup d' s e r' := by
  intro hgroup
  obtain ⟨_, opening⟩ := hgroup.opening
  cases e with
  | literal x => exact h.2.not_opening opening
  | name m => exact h.2.2.not_opening h.2.1.1 opening
  | call f as =>
    obtain ⟨_, valid, word, -⟩ := h
    exact word.not_opening valid.1 opening
  | not e =>
    obtain ⟨_, _, -, keyword, -⟩ := h
    exact keyword.not_opening (by decide) opening
  | binary op a b =>
    -- The parentheses at the front of the left operand hold a tree that is too small.
    obtain ⟨_, _, _, _, _, _, -, left, -, -⟩ := h
    obtain ⟨_, m, _, hm, hfront⟩ := left.exists_inGroup opening
    have hsmaller := hm.trans_lt (Expr.operators_left_lt op a b)
    have hsame : m = .binary op a b := hfront.tree_eq hgroup (by omega) hlimit
    rw [hsame] at hsmaller
    exact Nat.lt_irrefl _ hsmaller

/-- A tree that stands bare does so in every derivation. -/
theorem Bare.of_phrase {q d d' : Nat} {s r r' : List Char} {e : Expr α} (h : Bare d s e r)
    (hlimit : e.operators ≤ maxOperators) (hphrase : Phrase q d' s e r') : Bare d' s e r' :=
  hphrase.bare_or_inGroup.resolve_right (h.not_inGroup hlimit)

/-- Every phrase at the front of the text that means `e` is nested `d` levels deep and leaves
`r`. -/
def Settled (d : Nat) (s : List Char) (e : Expr α) (r : List Char) : Prop :=
  ∀ ⦃q d' : Nat⦄ ⦃r' : List Char⦄, Phrase q d' s e r' → d = d' ∧ r = r'

/-- An operation is settled where both of its operands are. -/
theorem settled_binary {p q d₁ d₂ : Nat} {s s₁ s₂ r : List Char} {op : BinaryOp} {a b : Expr α}
    (hlimit : (Expr.binary op a b).operators ≤ maxOperators) (left : Phrase p d₁ s a s₁)
    (operator : Operator op s₁ s₂) (right : Phrase q d₂ s₂ b r) (hleft : Settled d₁ s a s₁)
    (hright : Settled d₂ s₂ b r) : Settled (max d₁ d₂) s (.binary op a b) r := by
  intro _ d' r' h
  obtain ⟨_, _, _, _, s₁', s₂', rfl, left', operator', right'⟩ :=
    (bare_binary left operator right).of_phrase hlimit h
  obtain ⟨rfl, rfl⟩ := hleft left'
  have hrest : s₂ = s₂' := operator.token.rest_eq operator'.token
  subst hrest
  obtain ⟨rfl, rfl⟩ := hright right'
  exact ⟨rfl, rfl⟩

mutual

/-- Two phrases for one tree that start together are nested as deeply and leave the same text. -/
theorem Phrase.settled {p d : Nat} {s r : List Char} {e : Expr α}
    (hlimit : e.operators ≤ maxOperators) : Phrase p d s e r → Settled d s e r
  | .tighter inner => inner.settled hlimit
  | .row _ left operator right =>
    settled_binary hlimit left operator right
      (left.settled ((Expr.operators_left_lt ..).le.trans hlimit))
      (right.settled ((Expr.operators_right_lt ..).le.trans hlimit))
  | .comparison left operator right =>
    settled_binary hlimit left operator right
      (left.settled ((Expr.operators_left_lt ..).le.trans hlimit))
      (right.settled ((Expr.operators_right_lt ..).le.trans hlimit))
  | .negation keyword operand => fun _ _ _ h => by
    obtain ⟨_, _, rfl, keyword', operand'⟩ := (bare_not keyword operand).of_phrase hlimit h
    rw [Expr.operators] at hlimit
    cases keyword.1.rest_eq keyword'.1
    obtain ⟨rfl, rfl⟩ := operand.settled (by omega) operand'
    exact ⟨rfl, rfl⟩
  | .group opening inner closing => fun _ _ _ h => by
    have hgroup := h.bare_or_inGroup.resolve_left fun hbare =>
      hbare.not_inGroup hlimit ⟨_, _, _, rfl, opening, inner, closing⟩
    obtain ⟨_, _, _, rfl, opening', inner', closing'⟩ := hgroup
    cases opening.rest_eq opening'
    obtain ⟨rfl, rfl⟩ := inner.settled hlimit inner'
    exact ⟨rfl, closing.rest_eq closing'⟩
  | .literal number => fun _ _ _ h => by
    have hbare : Bare 0 s (.literal _) r := ⟨rfl, number⟩
    obtain ⟨rfl, number'⟩ := hbare.of_phrase hlimit h
    exact ⟨rfl, number.rest_eq number'⟩
  | .name valid word => fun _ _ _ h => by
    obtain ⟨rfl, -, word'⟩ := (bare_name valid word).of_phrase hlimit h
    rw [String.toList_ofList] at word'
    exact ⟨rfl, word.1.rest_eq word'.1⟩
  | .call valid word arguments => fun _ _ _ h => by
    obtain ⟨_, -, word', arguments'⟩ := (bare_call valid word arguments).of_phrase hlimit h
    rw [String.toList_ofList] at word'
    rw [Expr.operators] at hlimit
    cases word.1.rest_eq word'.1
    exact arguments.unique (by omega) arguments'

/-- Two argument lists for the same trees that start together are nested as deeply and leave the
same text. -/
theorem Arguments.unique {d d' : Nat} {s r r' : List Char} {as : List (Expr α)}
    (hlimit : Expr.operatorsIn as ≤ maxOperators) :
    Arguments d s as r → Arguments d' s as r' → d = d' ∧ r = r'
  | .none opening closing, h => by
    cases h with
    | none opening' closing' =>
      cases opening.rest_eq opening'
      exact ⟨rfl, closing.rest_eq closing'⟩
    | some _ row _ => cases row
  | .some opening row closing, h => by
    cases h with
    | none _ _ => cases row
    | some opening' row' closing' =>
      cases opening.rest_eq opening'
      obtain ⟨rfl, rfl⟩ := row.unique hlimit row'
      exact ⟨rfl, closing.rest_eq closing'⟩

/-- The same of rows of phrases. -/
theorem Phrases.unique {d d' : Nat} {s r r' : List Char} {as : List (Expr α)}
    (hlimit : Expr.operatorsIn as ≤ maxOperators) :
    Phrases d s as r → Phrases d' s as r' → d = d' ∧ r = r'
  | .one only, h => by
    rw [Expr.operatorsIn] at hlimit
    cases h with
    | one only' => exact only.settled (by omega) only'
    | more _ _ others' => cases others'
  | .more first comma others, h => by
    rw [Expr.operatorsIn] at hlimit
    cases h with
    | one _ => cases others
    | more first' comma' others' =>
      obtain ⟨rfl, rfl⟩ := first.settled (by omega) first'
      cases comma.rest_eq comma'
      obtain ⟨rfl, rfl⟩ := others.unique (by omega) others'
      exact ⟨rfl, rfl⟩

end

/-- Any two derivations of a text have one tree and one depth, where the trees are within the
limit. -/
theorem Derives.unique {d d' : Nat} {t : List Char} {e e' : Expr α}
    (hlimit : e.operators ≤ maxOperators) (hlimit' : e'.operators ≤ maxOperators)
    (h : Derives d t e) (h' : Derives d' t e') : e = e' ∧ d = d' := by
  obtain ⟨r, hphrase, hblank⟩ := h
  obtain ⟨r', hphrase', hblank'⟩ := h'
  have hpull : pull r < 1 := Nat.lt_of_le_of_lt (Nat.le_of_eq (pull_of_isBlank hblank)) Nat.one_pos
  have hpull' : pull r' < 1 :=
    Nat.lt_of_le_of_lt (Nat.le_of_eq (pull_of_isBlank hblank')) Nat.one_pos
  have htree : e = e' := hphrase.tree_eq hphrase' hpull hpull' hlimit hlimit'
  subst htree
  exact ⟨rfl, (hphrase.settled hlimit hphrase').1⟩

/-- A text of a tree is nested to one depth only. -/
theorem Derives.iff_eq {d n : Nat} {t : List Char} {e : Expr α} (h : Derives d t e)
    (hlimit : e.operators ≤ maxOperators) : Derives n t e ↔ n = d := by
  constructor
  · intro hn
    exact (hn.unique hlimit hlimit h).2
  · rintro rfl
    exact h

end TradeRules.Grammar
