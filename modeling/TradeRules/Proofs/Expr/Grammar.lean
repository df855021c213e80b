import TradeRules.Proofs.Expr.Token

/-!
# The grammar of rule expressions

Phrases are ordered by how strongly they bind, in the numbers of `BinaryOp.binding`:

- 1: phrases of level 2, joined by `OR`
- 2: phrases of level 3, joined by `AND`
- 3: `NOT` before a phrase of level 3, or a phrase of level 4
- 4: one comparison of two phrases of level 5, or a phrase of level 5
- 5: phrases of level 6, joined by `+` and `-`
- 6: phrases of level 7, joined by `*` and `/`
- 7: a phrase of level 1 in parentheses, a number, a name, or a name with its arguments

Operators of one strength group from the left, except that comparisons do not group at all. A
phrase also counts how deeply parentheses, argument lists with an argument and `NOT` are nested
in it. Like tokens, phrases are described by the text before and after them. Whatever its level,
a phrase is a tree in parentheses (`InGroup`) or one that is written as its root says (`Bare`).
-/

namespace TradeRules.Grammar

open Text Number

variable {α : Type} [Scalar α]

mutual

/-- `Phrase p d s e r`: the text `s` starts with a phrase of level `p` that means `e`, is nested
`d` levels deep, and leaves `r`. -/
inductive Phrase : Nat → Nat → List Char → Expr α → List Char → Prop where
  /-- What binds more strongly may stand where less is asked for. -/
  | tighter {p d : Nat} {s r : List Char} {e : Expr α} :
      Phrase (p + 1) d s e r → Phrase p d s e r
  /-- An operator that groups from the left. -/
  | row {op : BinaryOp} {d₁ d₂ : Nat} {s₀ s₁ s₂ s₃ : List Char} {a b : Expr α}
      (associates : op.isComparison = false) (left : Phrase op.binding d₁ s₀ a s₁)
      (operator : Operator op s₁ s₂) (right : Phrase (op.binding + 1) d₂ s₂ b s₃) :
      Phrase op.binding (max d₁ d₂) s₀ (.binary op a b) s₃
  /-- A comparison, neither operand of which is a bare comparison. -/
  | comparison {c : Comparison} {d₁ d₂ : Nat} {s₀ s₁ s₂ s₃ : List Char} {a b : Expr α}
      (left : Phrase 5 d₁ s₀ a s₁) (operator : Operator (.compare c) s₁ s₂)
      (right : Phrase 5 d₂ s₂ b s₃) :
      Phrase 4 (max d₁ d₂) s₀ (.binary (.compare c) a b) s₃
  /-- A negation. -/
  | negation {d : Nat} {s₀ s₁ s₂ : List Char} {e : Expr α}
      (keyword : Word "NOT".toList s₀ s₁) (operand : Phrase 3 d s₁ e s₂) :
      Phrase 3 (d + 1) s₀ (.not e) s₂
  /-- A phrase in parentheses. -/
  | group {d : Nat} {s₀ s₁ s₂ s₃ : List Char} {e : Expr α}
      (opening : Token ['('] s₀ s₁) (inner : Phrase 1 d s₁ e s₂) (closing : Token [')'] s₂ s₃) :
      Phrase 7 (d + 1) s₀ e s₃
  /-- A number. -/
  | literal {s r : List Char} {x : α} (number : NumberToken s x r) : Phrase 7 0 s (.literal x) r
  /-- A name. -/
  | name {n s r : List Char} (valid : IsName n) (word : Word n s r) :
      Phrase 7 0 s (.name (String.ofList n)) r
  /-- A name with an argument list. -/
  | call {f s₀ s₁ s₂ : List Char} {d : Nat} {as : List (Expr α)}
      (valid : IsName f) (word : Word f s₀ s₁) (arguments : Arguments d s₁ as s₂) :
      Phrase 7 d s₀ (.call (String.ofList f) as) s₂

/-- `Arguments d s as r`: the text `s` starts with an argument list that leaves `r`. -/
inductive Arguments : Nat → List Char → List (Expr α) → List Char → Prop where
  /-- Parentheses with nothing in between. -/
  | none {s₀ s₁ s₂ : List Char} (opening : Token ['('] s₀ s₁) (closing : Token [')'] s₁ s₂) :
      Arguments 0 s₀ [] s₂
  /-- Parentheses around at least one argument. -/
  | some {d : Nat} {s₀ s₁ s₂ s₃ : List Char} {as : List (Expr α)}
      (opening : Token ['('] s₀ s₁) (phrases : Phrases d s₁ as s₂) (closing : Token [')'] s₂ s₃) :
      Arguments (d + 1) s₀ as s₃

/-- `Phrases d s as r`: the text `s` starts with phrases between commas that leave `r`. -/
inductive Phrases : Nat → List Char → List (Expr α) → List Char → Prop where
  /-- A single phrase. -/
  | one {d : Nat} {s r : List Char} {e : Expr α} (only : Phrase 1 d s e r) : Phrases d s [e] r
  /-- A phrase, a comma, and more. -/
  | more {d₁ d₂ : Nat} {s₀ s₁ s₂ s₃ : List Char} {e : Expr α} {es : List (Expr α)}
      (first : Phrase 1 d₁ s₀ e s₁) (comma : Token [','] s₁ s₂) (others : Phrases d₂ s₂ es s₃) :
      Phrases (max d₁ d₂) s₀ (e :: es) s₃

end

/-- `Derives d t e`: the grammar derives `e` from the whole of the text `t`, which is nested `d`
levels deep. Blanks may stand before the end as before any token. -/
def Derives (d : Nat) (t : List Char) (e : Expr α) : Prop :=
  ∃ r, Phrase 1 d t e r ∧ ∀ c ∈ r, isBlank c = true

/-- Leading blanks make no difference to a phrase. -/
theorem Phrase.of_trimStart {p d : Nat} {s s' r : List Char} {e : Expr α}
    (h : trimStart s = trimStart s') : Phrase p d s e r → Phrase p d s' e r
  | .tighter inner => .tighter (inner.of_trimStart h)
  | .row associates left operator right => .row associates (left.of_trimStart h) operator right
  | .comparison left operator right => .comparison (left.of_trimStart h) operator right
  | .negation keyword operand => .negation (keyword.of_trimStart h) operand
  | .group opening inner closing => .group ((token_iff_of_trimStart h).1 opening) inner closing
  | .literal number => .literal ((numberToken_iff_of_trimStart h).1 number)
  | .name valid word => .name valid (word.of_trimStart h)
  | .call valid word arguments => .call valid (word.of_trimStart h) arguments

/-- Leading blanks make no difference to an argument list. -/
theorem Arguments.of_trimStart {d : Nat} {s s' r : List Char} {as : List (Expr α)}
    (h : trimStart s = trimStart s') : Arguments d s as r → Arguments d s' as r
  | .none opening closing => .none ((token_iff_of_trimStart h).1 opening) closing
  | .some opening row closing => .some ((token_iff_of_trimStart h).1 opening) row closing

/-- Leading blanks make no difference to a row of phrases. -/
theorem Phrases.of_trimStart {d : Nat} {s s' r : List Char} {as : List (Expr α)}
    (h : trimStart s = trimStart s') : Phrases d s as r → Phrases d s' as r
  | .one only => .one (only.of_trimStart h)
  | .more first comma others => .more (first.of_trimStart h) comma others

/-- A phrase may stand wherever a phrase of a lower level is asked for. -/
theorem Phrase.loosen {p q d : Nat} {s r : List Char} {e : Expr α} (hpq : p ≤ q)
    (h : Phrase q d s e r) : Phrase p d s e r := by
  induction q with
  | zero =>
    rw [Nat.le_zero.1 hpq]
    exact h
  | succ q ih =>
    rcases Nat.lt_or_ge p (q + 1) with hlt | hge
    · exact ih (Nat.le_of_lt_succ hlt) h.tighter
    · rw [Nat.le_antisymm hpq hge]
      exact h

/-- The text starts with a tree in parentheses, which leaves `r`. -/
def InGroup (d : Nat) (s : List Char) (e : Expr α) (r : List Char) : Prop :=
  ∃ n s₁ s₂, d = n + 1 ∧ Token ['('] s s₁ ∧ Phrase 1 n s₁ e s₂ ∧ Token [')'] s₂ r

/-- The text starts with a tree as its root says, not with parentheses around it. -/
def Bare (d : Nat) (s : List Char) : Expr α → List Char → Prop
  | .literal x, r => d = 0 ∧ NumberToken s x r
  | .name n, r => d = 0 ∧ IsName n.toList ∧ Word n.toList s r
  | .call f as, r => ∃ s₁, IsName f.toList ∧ Word f.toList s s₁ ∧ Arguments d s₁ as r
  | .not e, r => ∃ n s₁, d = n + 1 ∧ Word "NOT".toList s s₁ ∧ Phrase 3 n s₁ e r
  | .binary op a b, r => ∃ p q d₁ d₂ s₁ s₂, d = max d₁ d₂ ∧ Phrase p d₁ s a s₁ ∧
      Operator op s₁ s₂ ∧ Phrase q d₂ s₂ b r

section Bare

variable {p q d d₁ d₂ : Nat} {n s s₁ s₂ r : List Char} {e a b : Expr α} {op : BinaryOp}

/-- Two operands with their operator stand bare. -/
theorem bare_binary (left : Phrase p d₁ s a s₁) (operator : Operator op s₁ s₂)
    (right : Phrase q d₂ s₂ b r) : Bare (max d₁ d₂) s (.binary op a b) r :=
  ⟨p, q, d₁, d₂, s₁, s₂, rfl, left, operator, right⟩

/-- A negation stands bare. -/
theorem bare_not (keyword : Word "NOT".toList s s₁) (operand : Phrase 3 d s₁ e r) :
    Bare (d + 1) s (.not e) r :=
  ⟨d, s₁, rfl, keyword, operand⟩

/-- A name stands bare. -/
theorem bare_name (valid : IsName n) (word : Word n s r) :
    Bare 0 s (.name (String.ofList n) : Expr α) r := by
  rw [Bare, String.toList_ofList]
  exact ⟨rfl, valid, word⟩

/-- A call stands bare. -/
theorem bare_call {as : List (Expr α)} (valid : IsName n) (word : Word n s s₁)
    (arguments : Arguments d s₁ as r) : Bare d s (.call (String.ofList n) as) r := by
  rw [Bare, String.toList_ofList]
  exact ⟨s₁, valid, word, arguments⟩

/-- A phrase is a tree as its root says, or one in parentheses. -/
theorem Phrase.bare_or_inGroup {p d : Nat} {s r : List Char} {e : Expr α} :
    Phrase p d s e r → Bare d s e r ∨ InGroup d s e r
  | .tighter inner => inner.bare_or_inGroup
  | .row _ left operator right => .inl (bare_binary left operator right)
  | .comparison left operator right => .inl (bare_binary left operator right)
  | .negation keyword operand => .inl (bare_not keyword operand)
  | .group opening inner closing => .inr ⟨_, _, _, rfl, opening, inner, closing⟩
  | .literal number => .inl ⟨rfl, number⟩
  | .name valid word => .inl (bare_name valid word)
  | .call valid word arguments => .inl (bare_call valid word arguments)

end Bare

/-- A tree in parentheses stands after the first of them. -/
theorem InGroup.opening {d : Nat} {s r : List Char} {e : Expr α} (h : InGroup d s e r) :
    ∃ s₁, Token ['('] s s₁ := by
  obtain ⟨_, s₁, _, -, opening, -, -⟩ := h
  exact ⟨s₁, opening⟩

end TradeRules.Grammar
