import TradeRules.Proofs.Expr.Soundness
import TradeRules.Proofs.Expr.Lookahead

/-!
# Every phrase is read

Where the grammar derives a phrase and nothing that follows pulls at it, the reader of its level
returns it, provided that enough levels and operators are left. Rows are read in a loop from the
left and derived as trees that lean to the left; `Resumes` joins the two: having read the
phrase, the loop stands where it would stand had it started with the phrase as its left operand.
Together with soundness, the parser accepts exactly what the grammar derives.
-/

namespace TradeRules

open Text Number Grammar

namespace State

/-- A place before a text, blanks apart, where a number of operators was counted. -/
structure Before (t : State) (r : List Char) (n : Nat) : Prop where
  /-- The text stands next. -/
  rest : trimStart t.rest = trimStart r
  /-- So many operators and calls were counted. -/
  operators : t.operators = n

/-- A place is before the text that is left there. -/
theorem Before.of_eq {t : State} {r : List Char} {n : Nat} (hr : t.rest = r)
    (hn : t.operators = n) : t.Before r n :=
  ⟨congrArg trimStart hr, hn⟩

/-- Below the limit, another operator is counted. -/
theorem addOperator_eq_ok {s : State} (h : s.operators < maxOperators) :
    ∃ t, s.addOperator = .ok t ∧ t.rest = s.rest ∧ t.operators = s.operators + 1 :=
  ⟨{ s with operators := s.operators + 1 }, if_neg (Nat.not_le_of_lt h), rfl, rfl⟩

end State

namespace Chain

variable {α : Type} {k : Chain} {operand : Parser α} {a b : Expr α} {s s₁ s₂ s₃ : State}

/-- Negations, comparisons and operands are no rows. -/
theorem binding_ne (k : Chain) : k.binding ≠ 3 ∧ k.binding ≠ 4 ∧ k.binding ≠ 7 := by
  cases k <;> decide

/-- A row ends where none of its operators comes next. -/
theorem continueRow_of_none (h : k.operator? s = none) :
    k.continueRow operand a s = .ok (a, s.skipBlanks) := by
  rw [continueRow]
  split
  · rfl
  · rename_i hop
    rw [h] at hop
    cases hop

/-- A row goes on with an operator and an operand. -/
theorem continueRow_of_some {op : BinaryOp} (hop : k.operator? s = some (op, s₁))
    (hadd : s₁.addOperator = .ok s₂) (hrun : operand.run s₂ = .ok (b, s₃)) :
    k.continueRow operand a s = k.continueRow operand (.binary op a b) s₃ := by
  rw [continueRow]
  split
  · rename_i hop'
    rw [hop] at hop'
    cases hop'
  · rename_i hop'
    rw [hop] at hop'
    cases hop'
    split
    · rename_i hadd'
      rw [hadd] at hadd'
      cases hadd'
    · rename_i hadd'
      rw [hadd] at hadd'
      cases hadd'
      split
      · rename_i hrun'
        rw [hrun] at hrun'
        cases hrun'
      · rename_i hrun'
        rw [hrun] at hrun'
        cases hrun'
        rfl

end Chain

namespace Parser

section Arguments

variable {α : Type} {argument : Parser α} {s s₁ s₂ s₃ : State} {a : Expr α} {as : List (Expr α)}

/-- A closing parenthesis ends the arguments. -/
theorem moreArguments_of_closing (h : s.skipBlanks.startsWith ')' = true) :
    moreArguments argument s = .ok ([], s.skipBlanks.consume 1) := by
  rw [moreArguments, if_pos h]

/-- A comma is followed by another argument. -/
theorem moreArguments_of_comma (h : s.skipBlanks.startsWith ')' = false)
    (hcomma : s.expect ',' = .ok s₁) (hrun : argument.run s₁ = .ok (a, s₂))
    (hmore : moreArguments argument s₂ = .ok (as, s₃)) :
    moreArguments argument s = .ok (a :: as, s₃) := by
  rw [moreArguments, if_neg (by rw [h]; decide)]
  split
  · rename_i hcomma'
    rw [hcomma] at hcomma'
    cases hcomma'
  · rename_i hcomma'
    rw [hcomma] at hcomma'
    cases hcomma'
    split
    · rename_i hrun'
      rw [hrun] at hrun'
      cases hrun'
    · rename_i hrun'
      rw [hrun] at hrun'
      cases hrun'
      rw [hmore]

end Arguments

variable {α : Type} [Scalar α]

/-- The reader of negations one level further inside, if there is one. -/
def deeper : Nat → Option (Parser α)
  | 0 => none
  | levels + 1 => some (negation levels)

/-- The reader of expressions one level further inside, if there is one. -/
def innerReader (levels : Nat) : Option (Parser α) := deeper levels |>.map expressionOver

/-- The reader for phrases of a level. -/
def reader (levels : Nat) : Nat → Parser α
  | 0 | 1 => expression levels
  | 2 => chain .conjunction (negation levels)
  | 3 => negation levels
  | 4 => comparison (innerReader levels)
  | 5 => chain .sum (chain .product (primary (innerReader levels)))
  | 6 => chain .product (primary (innerReader levels))
  | _ => primary (innerReader levels)

/-- A level that is a row of operators is read as a row over the next level. -/
theorem reader_binding (levels : Nat) (k : Chain) :
    (reader levels k.binding : Parser α) = chain k (reader levels (k.binding + 1)) := by
  cases k <;> rfl

/-- Negations are read with the readers further inside. -/
theorem negation_eq (levels : Nat) :
    (negation levels : Parser α) = negationOver (deeper levels) := by
  cases levels <;> rfl

/-- The phrase of a level is read where nothing that follows pulls at it. -/
def Completes (p levels : Nat) (s : List Char) (e : Expr α) (r : List Char) : Prop :=
  ∀ ⦃st : State⦄ ⦃n : Nat⦄, st.Before s n → n + e.operators ≤ maxOperators → pull r < p →
    ∃ t, (reader levels p).run st = .ok (e, t) ∧ t.Before r (n + e.operators)

/-- Reading a row from the front of the phrase comes to where the phrase is its left operand. -/
def Resumes (k : Chain) (levels : Nat) (s : List Char) (e : Expr α) (r : List Char) : Prop :=
  ∀ ⦃st : State⦄ ⦃n : Nat⦄, st.Before s n → n + e.operators ≤ maxOperators →
    pull r ≤ k.binding →
    ∃ t, (reader levels k.binding).run st =
        k.continueRow (reader levels (k.binding + 1)) e t ∧ t.Before r (n + e.operators)

/-- The argument list is read. -/
def CompletesArguments (levels : Nat) (s : List Char) (as : List (Expr α)) (r : List Char) :
    Prop :=
  ∀ ⦃st : State⦄ ⦃n : Nat⦄, st.Before s n → n + Expr.operatorsIn as ≤ maxOperators →
    ∃ t, arguments (innerReader levels) st = .ok (as, t) ∧
      t.Before r (n + Expr.operatorsIn as)

/-- The row of arguments is read up to its closing parenthesis. -/
def CompletesRow (levels : Nat) (s : List Char) (as : List (Expr α)) (r : List Char) : Prop :=
  ∀ ⦃st : State⦄ ⦃n : Nat⦄ ⦃r' : List Char⦄, st.Before s n →
    n + Expr.operatorsIn as ≤ maxOperators → Token [')'] r r' →
    ∃ a others u t, as = a :: others ∧ (expression levels).run st = .ok (a, u) ∧
      moreArguments (expression levels) u = .ok (others, t) ∧
      t.Before r' (n + Expr.operatorsIn as)

section Rules

variable {p levels : Nat} {k : Chain} {s s₀ s₁ s₂ s₃ r : List Char} {e a b : Expr α}

/-- A single operand is where its row starts from. -/
theorem resumes_of_completes (h : Completes (k.binding + 1) levels s e r) :
    Resumes k levels s e r := by
  intro st n hst hlimit hpull
  obtain ⟨t, hrun, ht⟩ := h hst hlimit (Nat.lt_succ_of_le hpull)
  refine ⟨t, ?_, ht⟩
  rw [reader_binding]
  simp only [chain, hrun]

/-- A row that nothing pulls at ends with the phrase. -/
theorem completes_of_resumes (h : Resumes k levels s e r) :
    Completes k.binding levels s e r := by
  intro st n hst hlimit hpull
  obtain ⟨t, hrun, ht⟩ := h hst hlimit (Nat.le_of_lt hpull)
  have hnone : k.operator? t = none := Chain.operator?_eq_none (by rwa [pull_of_trimStart ht.rest])
  refine ⟨t.skipBlanks, ?_, ⟨?_, ht.operators⟩⟩
  · rw [hrun, Chain.continueRow_of_none hnone]
  · rw [State.rest_skipBlanks, trimStart_trimStart, ht.rest]

/-- An operator and an operand extend a row. -/
theorem resumes_row {op : BinaryOp} (hbinding : op.binding = k.binding)
    (associates : op.isComparison = false) (left : Resumes k levels s₀ a s₁)
    (operator : Operator op s₁ s₂) (right : Completes (k.binding + 1) levels s₂ b s₃) :
    Resumes k levels s₀ (.binary op a b) s₃ := by
  intro st n hst hlimit hpull
  rw [Expr.operators] at hlimit ⊢
  have hpull₁ : pull s₁ ≤ k.binding :=
    Nat.le_of_eq ((pull_of_operator operator).trans hbinding)
  obtain ⟨t₁, hrun₁, ht₁⟩ := left hst (by omega) hpull₁
  obtain ⟨t₂, hop, hrest₂, hops₂⟩ := Chain.operator?_of_operator hbinding associates
    ((operator_iff_of_trimStart ht₁.rest).2 operator)
  rw [ht₁.operators] at hops₂
  obtain ⟨t₃, hadd, hrest₃, hops₃⟩ := State.addOperator_eq_ok (s := t₂) (by omega)
  obtain ⟨t₄, hrun₄, ht₄⟩ := right (.of_eq (hrest₃.trans hrest₂) (hops₃.trans (by rw [hops₂])))
    (by omega) (Nat.lt_succ_of_le hpull)
  refine ⟨t₄, ?_, ⟨ht₄.rest, ?_⟩⟩
  · rw [hrun₁, Chain.continueRow_of_some hop hadd hrun₄]
  · rw [ht₄.operators]
    omega

/-- A sum that no comparison follows is read where a comparison may stand. -/
theorem completes_comparison_of_sum (h : Completes 5 levels s e r) :
    Completes 4 levels s e r := by
  intro st n hst hlimit hpull
  obtain ⟨t, hrun, ht⟩ := h hst hlimit (Nat.lt_succ_of_lt hpull)
  have hnone : t.comparison? = .ok none :=
    State.comparison?_eq_none (by rwa [pull_of_trimStart ht.rest])
  refine ⟨t, ?_, ht⟩
  have hsum : (chain .sum (chain .product (primary (innerReader levels)))).run st =
      .ok (e, t) := hrun
  simp only [reader, comparison, hsum, hnone]

/-- One comparison of two sums is read. -/
theorem completes_comparison {c : Comparison} (left : Completes 5 levels s₀ a s₁)
    (operator : Operator (.compare c) s₁ s₂) (hequals : s₂.head? ≠ some '=')
    (right : Completes 5 levels s₂ b s₃) :
    Completes 4 levels s₀ (.binary (.compare c) a b) s₃ := by
  intro st n hst hlimit hpull
  rw [Expr.operators] at hlimit ⊢
  have hpull₁ : pull s₁ < 5 := by
    rw [pull_of_operator operator]
    exact Nat.lt_succ_self 4
  obtain ⟨t₁, hrun₁, ht₁⟩ := left hst (by omega) hpull₁
  obtain ⟨t₂, hc, hrest₂, hops₂⟩ := State.comparison?_of_operator hequals
    ((operator_iff_of_trimStart ht₁.rest).2 operator)
  rw [ht₁.operators] at hops₂
  obtain ⟨t₃, hadd, hrest₃, hops₃⟩ := State.addOperator_eq_ok (s := t₂) (by omega)
  obtain ⟨t₄, hrun₄, ht₄⟩ := right (.of_eq (hrest₃.trans hrest₂) (hops₃.trans (by rw [hops₂])))
    (by omega) (Nat.lt_succ_of_lt hpull)
  have hnone : t₄.comparison? = .ok none :=
    State.comparison?_eq_none (by rwa [pull_of_trimStart ht₄.rest])
  have hsum₁ : (chain .sum (chain .product (primary (innerReader levels)))).run st =
      .ok (a, t₁) := hrun₁
  have hsum₄ : (chain .sum (chain .product (primary (innerReader levels)))).run t₃ =
      .ok (b, t₄) := hrun₄
  refine ⟨t₄, ?_, ⟨ht₄.rest, ?_⟩⟩
  · simp only [reader, comparison, hsum₁, hc, hadd, hsum₄, hnone]
  · rw [ht₄.operators]
    omega

/-- A phrase that does not start with `NOT` is read as a comparison. -/
theorem completes_negation_of_comparison
    (hkeyword : (trimStart s).takeWhile isNameChar ∉ keywords) (h : Completes 4 levels s e r) :
    Completes 3 levels s e r := by
  intro st n hst hlimit hpull
  obtain ⟨t, hrun, ht⟩ := h hst hlimit (Nat.lt_succ_of_lt hpull)
  have hnone : st.keyword? "NOT".toList = none := by
    apply State.keyword?_eq_none
    rw [hst.rest]
    intro hword
    rw [hword] at hkeyword
    exact hkeyword (by decide)
  refine ⟨t, ?_, ht⟩
  have hcomparison : (comparison (innerReader levels)).run st = .ok (e, t) := hrun
  simp only [reader, negation_eq, negationOver, hnone]
  exact hcomparison

/-- A negation is read one level further inside. -/
theorem completes_negation (keyword : Word "NOT".toList s₀ s₁) (h : Completes 3 levels s₁ e r) :
    Completes 3 (levels + 1) s₀ (.not e) r := by
  intro st n hst hlimit hpull
  rw [Expr.operators] at hlimit ⊢
  obtain ⟨t₁, hkeyword, hrest₁, hops₁⟩ := State.keyword?_of_word (s := st) (by decide) (by decide)
    ⟨(token_iff_of_trimStart hst.rest).2 keyword.1, keyword.2⟩
  rw [hst.operators] at hops₁
  obtain ⟨t₂, hadd, hrest₂, hops₂⟩ := State.addOperator_eq_ok (s := t₁) (by omega)
  obtain ⟨t₃, hrun, ht₃⟩ := h (.of_eq (hrest₂.trans hrest₁) (hops₂.trans (by rw [hops₁])))
    (by omega) hpull
  have hnegation : (negation levels).run t₂ = .ok (e, t₃) := hrun
  refine ⟨t₃, ?_, ⟨ht₃.rest, ?_⟩⟩
  · simp only [reader, negation_eq (levels + 1), negationOver, deeper, hkeyword, hadd, hnegation]
  · rw [ht₃.operators]
    omega

end Rules

section Operands

variable {levels : Nat} {s s₀ s₁ s₂ s₃ r : List Char} {e : Expr α} {as : List (Expr α)}

/-- The readers further inside start with that of expressions. -/
theorem innerReader_succ (levels : Nat) : (innerReader (levels + 1) : Option (Parser α)) =
    some (expression levels) := rfl

/-- A parenthesis in place of an operand opens a group. -/
theorem primary_of_opening {expression : Option (Parser α)} {st : State}
    (h : Token ['('] st.rest r) :
    (primary expression).run st = group expression (st.skipBlanks.consume 1) := by
  have hrest : st.skipBlanks.rest = '(' :: r := by
    rw [State.rest_skipBlanks]
    exact h
  simp only [primary]
  split
  · rename_i hnil
    rw [hrest] at hnil
    cases hnil
  · rename_i c cs hcons
    rw [hrest] at hcons
    cases hcons
    rfl

/-- A number in place of an operand is a literal. -/
theorem primary_of_number {expression : Option (Parser α)} {st t : State} {x : α}
    (h : NumberToken st.rest x r) (hnumber : st.skipBlanks.number = .ok (x, t)) :
    (primary expression).run st = .ok (.literal x, t) := by
  obtain ⟨c, cs, hstart, hc⟩ := h.start
  have hopening : c ≠ '(' := by
    rintro rfl
    cases hc
  simp only [primary, State.rest_skipBlanks, hstart]
  rw [if_neg hopening, if_pos (State.startsNumber_of_numberToken h), hnumber]

/-- A name in place of an operand is a name or a call. -/
theorem primary_of_name {expression : Option (Parser α)} {st : State} {n : List Char}
    (h : IsName n) (hword : Word n st.rest r) :
    (primary expression).run st = named expression st.skipBlanks := by
  obtain ⟨c, cs, hstart, hc⟩ := h.start hword
  have hopening : c ≠ '(' := by
    rintro rfl
    cases hc
  have hnumber : st.skipBlanks.startsNumber = false :=
    State.startsNumber_eq_false (by rw [State.rest_skipBlanks, hstart])
      (mayStartNumber_of_isNameStart hc)
  simp only [primary, State.rest_skipBlanks, hstart]
  rw [if_neg hopening, if_neg (by rw [hnumber]; decide), if_pos hc]

/-- A group is read one level further inside. -/
theorem completes_group (opening : Token ['('] s₀ s₁) (h : Completes 1 levels s₁ e s₂)
    (closing : Token [')'] s₂ s₃) : Completes 7 (levels + 1) s₀ e s₃ := by
  intro st n hst hlimit hpull
  have htoken := (token_iff_of_trimStart hst.rest).2 opening
  have hpull₂ : pull s₂ < 1 := by
    rw [pull_of_token rfl closing]
    decide
  obtain ⟨t₁, hrun, ht₁⟩ := h (.of_eq (State.rest_consume_of_token htoken) hst.operators)
    hlimit hpull₂
  obtain ⟨t₂, hexpect, hrest₂, hops₂⟩ :=
    State.expect_of_token ((token_iff_of_trimStart ht₁.rest).2 closing)
  have hexpression : (expression levels).run (st.skipBlanks.consume 1) = .ok (e, t₁) := hrun
  refine ⟨t₂, ?_, .of_eq hrest₂ (hops₂.trans ht₁.operators)⟩
  change (primary (innerReader (levels + 1))).run st = _
  rw [primary_of_opening htoken, innerReader_succ]
  simp only [group, hexpression, hexpect]

/-- A number is read. -/
theorem completes_literal {x : α} (number : NumberToken s x r) :
    Completes 7 levels s (.literal x) r := by
  intro st n hst hlimit hpull
  have htoken := (numberToken_iff_of_trimStart hst.rest).2 number
  obtain ⟨t, hnumber, hrest, hops⟩ := State.number_of_numberToken htoken
  exact ⟨t, primary_of_number htoken hnumber, .of_eq hrest (hops.trans hst.operators)⟩

/-- A name that no parenthesis follows is read. -/
theorem completes_name {w : List Char} (valid : IsName w) (word : Word w s r) :
    Completes 7 levels s (.name (String.ofList w) : Expr α) r := by
  intro st n hst hlimit hpull
  have hword : Word w st.rest r := ⟨(token_iff_of_trimStart hst.rest).2 word.1, word.2⟩
  have hrun : st.skipBlanks.word = w := by
    rw [State.word, State.rest_skipBlanks, hword.takeWhile valid.2.1]
  have hrest : (st.skipBlanks.consume w.length).rest = r := State.rest_consume_of_token hword.1
  have hclosed : (st.skipBlanks.consume w.length).skipBlanks.startsWith '(' ≠ true := by
    intro hstart
    have htoken := State.token_of_startsWith hstart
    rw [hrest] at htoken
    rw [pull_of_token rfl htoken] at hpull
    exact absurd hpull (by decide)
  refine ⟨(st.skipBlanks.consume w.length).skipBlanks, ?_, ⟨?_, hst.operators⟩⟩
  · change (primary (innerReader levels)).run st = _
    rw [primary_of_name valid hword]
    simp only [named, hrun]
    rw [if_neg valid.2.2, if_neg hclosed]
  · rw [State.rest_skipBlanks, trimStart_trimStart, hrest]

/-- A name before an argument list is read as a call. -/
theorem completes_call {f : List Char} (valid : IsName f) (word : Word f s₀ s₁)
    (opening : ∃ r, Token ['('] s₁ r) (h : CompletesArguments levels s₁ as s₂) :
    Completes 7 levels s₀ (.call (String.ofList f) as) s₂ := by
  intro st n hst hlimit hpull
  rw [Expr.operators] at hlimit ⊢
  have hword : Word f st.rest s₁ := ⟨(token_iff_of_trimStart hst.rest).2 word.1, word.2⟩
  have hrun : st.skipBlanks.word = f := by
    rw [State.word, State.rest_skipBlanks, hword.takeWhile valid.2.1]
  have hrest : (st.skipBlanks.consume f.length).rest = s₁ := State.rest_consume_of_token hword.1
  have hopen : (st.skipBlanks.consume f.length).skipBlanks.startsWith '(' = true := by
    obtain ⟨r, hr⟩ := opening
    exact State.startsWith_of_token (by rwa [hrest])
  have hops : (st.skipBlanks.consume f.length).skipBlanks.operators = n := hst.operators
  obtain ⟨t₂, hadd, hrest₂, hops₂⟩ :=
    State.addOperator_eq_ok (s := (st.skipBlanks.consume f.length).skipBlanks) (by omega)
  have ht₂ : t₂.Before s₁ (n + 1) := by
    refine ⟨?_, hops₂.trans (by rw [hops])⟩
    rw [hrest₂, State.rest_skipBlanks, trimStart_trimStart, hrest]
  obtain ⟨t₃, hargs, ht₃⟩ := h ht₂ (by omega)
  refine ⟨t₃, ?_, ⟨ht₃.rest, ?_⟩⟩
  · change (primary (innerReader levels)).run st = _
    rw [primary_of_name valid hword]
    simp only [named, hrun]
    rw [if_neg valid.2.2, if_pos hopen]
    simp only [hadd, hargs]
  · rw [ht₃.operators]
    omega

/-- Empty parentheses are read as no arguments. -/
theorem completesArguments_none (opening : Token ['('] s₀ s₁) (closing : Token [')'] s₁ s₂) :
    CompletesArguments levels s₀ ([] : List (Expr α)) s₂ := by
  intro st n hst hlimit
  obtain ⟨t₁, hexpect, hrest₁, hops₁⟩ :=
    State.expect_of_token ((token_iff_of_trimStart hst.rest).2 opening)
  have htoken : Token [')'] t₁.rest s₂ := by rwa [hrest₁]
  refine ⟨t₁.skipBlanks.consume 1, ?_,
    .of_eq (State.rest_consume_of_token htoken) (hops₁.trans hst.operators)⟩
  simp only [arguments, hexpect]
  rw [if_pos (State.startsWith_of_token htoken)]

/-- A row of arguments is read one level further inside. -/
theorem completesArguments_some (opening : Token ['('] s₀ s₁)
    (hstart : ∃ c cs, trimStart s₁ = c :: cs ∧ mayStartPhrase c = true)
    (h : CompletesRow levels s₁ as s₂) (closing : Token [')'] s₂ s₃) :
    CompletesArguments (levels + 1) s₀ as s₃ := by
  intro st n hst hlimit
  obtain ⟨t₁, hexpect, hrest₁, hops₁⟩ :=
    State.expect_of_token ((token_iff_of_trimStart hst.rest).2 opening)
  have hopen : t₁.skipBlanks.startsWith ')' ≠ true := by
    intro hclosing
    have htoken := State.token_of_startsWith hclosing
    obtain ⟨c, cs, hs, hc⟩ := hstart
    rw [hrest₁, Token, hs] at htoken
    cases htoken
    exact absurd hc (by decide)
  have ht₁ : t₁.skipBlanks.Before s₁ n := by
    refine ⟨?_, hops₁.trans hst.operators⟩
    rw [State.rest_skipBlanks, trimStart_trimStart, hrest₁]
  obtain ⟨a, others, u, t, rfl, hrun, hmore, ht⟩ := h ht₁ hlimit closing
  refine ⟨t, ?_, ht⟩
  simp only [arguments, hexpect]
  rw [if_neg hopen, innerReader_succ]
  simp only [hrun, hmore]

/-- A single argument is read. -/
theorem completesRow_one (h : Completes 1 levels s e r) : CompletesRow levels s [e] r := by
  intro st n r' hst hlimit closing
  have hpull : pull r < 1 := by
    rw [pull_of_token rfl closing]
    exact Nat.one_pos
  obtain ⟨u, hrun, hu⟩ := h hst hlimit hpull
  have htoken : Token [')'] u.rest r' := (token_iff_of_trimStart hu.rest).2 closing
  exact ⟨e, [], u, u.skipBlanks.consume 1, rfl, hrun,
    moreArguments_of_closing (State.startsWith_of_token htoken),
    .of_eq (State.rest_consume_of_token htoken) hu.operators⟩

/-- An argument before others is read. -/
theorem completesRow_more (first : Completes 1 levels s₀ e s₁) (comma : Token [','] s₁ s₂)
    (others : CompletesRow levels s₂ as s₃) : CompletesRow levels s₀ (e :: as) s₃ := by
  intro st n r' hst hlimit closing
  rw [Expr.operatorsIn] at hlimit ⊢
  have hpull : pull s₁ < 1 := by
    rw [pull_of_token rfl comma]
    exact Nat.one_pos
  obtain ⟨u, hrun, hu⟩ := first hst (by omega) hpull
  have htoken : Token [','] u.rest s₂ := (token_iff_of_trimStart hu.rest).2 comma
  obtain ⟨v, hexpect, hrest, hops⟩ := State.expect_of_token htoken
  have hopen := State.startsWith_eq_false_of_token htoken (show ',' ≠ ')' by decide)
  obtain ⟨a, rest, w, t, rfl, hrun', hmore, ht⟩ :=
    others (.of_eq hrest (hops.trans hu.operators)) (by omega) closing
  refine ⟨e, a :: rest, u, t, rfl, hrun, moreArguments_of_comma hopen hexpect hrun' hmore, ?_⟩
  refine ⟨ht.rest, ?_⟩
  rw [ht.operators]
  omega

/-- A phrase of a level is read where the level before is asked for. -/
theorem completes_tighter {p : Nat} (h : Completes (p + 1) levels s e r)
    (hkeyword : 4 ≤ p + 1 → (trimStart s).takeWhile isNameChar ∉ keywords) :
    Completes p levels s e r := by
  match p with
  | 0 => exact fun _ _ _ _ hpull => absurd hpull (Nat.not_lt_zero _)
  | 1 => exact completes_of_resumes (k := .disjunction) (resumes_of_completes h)
  | 2 => exact completes_of_resumes (k := .conjunction) (resumes_of_completes h)
  | 3 => exact completes_negation_of_comparison (hkeyword (Nat.le_refl 4)) h
  | 4 => exact completes_comparison_of_sum h
  | 5 => exact completes_of_resumes (k := .sum) (resumes_of_completes h)
  | 6 => exact completes_of_resumes (k := .product) (resumes_of_completes h)
  | p + 7 => exact fun _ _ hst hlimit hpull => h hst hlimit (Nat.lt_succ_of_lt hpull)

end Operands

end Parser

namespace Grammar

open TradeRules.Parser

variable {α : Type} [Scalar α]

/-- An operator that groups from the left is one of a row. -/
theorem exists_binding_eq {op : BinaryOp} (h : op.isComparison = false) :
    ∃ k : Chain, k.binding = op.binding := by
  cases op with
  | or => exact ⟨.disjunction, rfl⟩
  | and => exact ⟨.conjunction, rfl⟩
  | compare c => cases h
  | compute a =>
    cases a with
    | add | sub => exact ⟨.sum, rfl⟩
    | mul | div => exact ⟨.product, rfl⟩

/-- An argument list starts with its parenthesis. -/
theorem Arguments.start {d : Nat} {s r : List Char} {as : List (Expr α)}
    (h : Arguments d s as r) : ∃ r', Token ['('] s r' := by
  cases h with
  | none opening _ => exact ⟨_, opening⟩
  | some opening _ _ => exact ⟨_, opening⟩

/-- A row of phrases starts like a phrase. -/
theorem Phrases.start {d : Nat} {s r : List Char} {as : List (Expr α)}
    (h : Phrases d s as r) : ∃ c cs, trimStart s = c :: cs ∧ mayStartPhrase c = true := by
  cases h with
  | one only => exact only.start
  | more first _ _ => exact first.start

mutual

/-- A phrase is read at any number of levels that suffices, and in a row from its front on. -/
theorem Phrase.completes {p d levels : Nat} {s r : List Char} {e : Expr α} (hd : d ≤ levels) :
    Phrase p d s e r → Completes p levels s e r ∧ ∀ k, k.binding = p → Resumes k levels s e r
  | .tighter inner => by
    have h := (inner.completes hd).1
    refine ⟨completes_tighter h fun hp => inner.takeWhile_notMem_keywords hp, ?_⟩
    rintro k rfl
    exact resumes_of_completes h
  | @Phrase.row _ _ op d₁ d₂ _ _ _ _ a b associates left operator right => by
    have row : ∀ k : Chain, k.binding = op.binding → Resumes k levels s (.binary op a b) r := by
      intro k hk
      have hleft := (left.completes (Nat.le_trans (Nat.le_max_left ..) hd)).2 k hk
      have hright := (right.completes (Nat.le_trans (Nat.le_max_right ..) hd)).1
      rw [← hk] at hright
      exact resumes_row hk.symm associates hleft operator hright
    obtain ⟨k, hk⟩ := exists_binding_eq associates
    refine ⟨?_, row⟩
    rw [← hk]
    exact completes_of_resumes (row k hk)
  | .comparison left operator right => by
    have hleft := (left.completes (Nat.le_trans (Nat.le_max_left ..) hd)).1
    have hright := (right.completes (Nat.le_trans (Nat.le_max_right ..) hd)).1
    exact ⟨completes_comparison hleft operator right.head?_ne_equals hright,
      fun k hk => absurd hk k.binding_ne.2.1⟩
  | .negation keyword operand => by
    cases levels with
    | zero => exact absurd hd (Nat.not_succ_le_zero _)
    | succ n =>
      have hoperand := (operand.completes (Nat.le_of_succ_le_succ hd)).1
      exact ⟨completes_negation keyword hoperand, fun k hk => absurd hk k.binding_ne.1⟩
  | .group opening inner closing => by
    cases levels with
    | zero => exact absurd hd (Nat.not_succ_le_zero _)
    | succ n =>
      have hinner := (inner.completes (Nat.le_of_succ_le_succ hd)).1
      exact ⟨completes_group opening hinner closing, fun k hk => absurd hk k.binding_ne.2.2⟩
  | .literal number => ⟨completes_literal number, fun k hk => absurd hk k.binding_ne.2.2⟩
  | .name valid word => ⟨completes_name valid word, fun k hk => absurd hk k.binding_ne.2.2⟩
  | .call valid word arguments =>
    ⟨completes_call valid word arguments.start (arguments.completes hd),
      fun k hk => absurd hk k.binding_ne.2.2⟩

/-- An argument list is read at any number of levels that suffices. -/
theorem Arguments.completes {d levels : Nat} {s r : List Char} {as : List (Expr α)}
    (hd : d ≤ levels) : Arguments d s as r → CompletesArguments levels s as r
  | .none opening closing => completesArguments_none opening closing
  | .some opening row closing => by
    cases levels with
    | zero => exact absurd hd (Nat.not_succ_le_zero _)
    | succ n =>
      exact completesArguments_some opening row.start (row.completes (Nat.le_of_succ_le_succ hd))
        closing

/-- A row of arguments is read at any number of levels that suffices. -/
theorem Phrases.completes {d levels : Nat} {s r : List Char} {as : List (Expr α)}
    (hd : d ≤ levels) : Phrases d s as r → CompletesRow levels s as r
  | .one only => completesRow_one (only.completes hd).1
  | .more first comma others =>
    completesRow_more (first.completes (Nat.le_trans (Nat.le_max_left ..) hd)).1 comma
      (others.completes (Nat.le_trans (Nat.le_max_right ..) hd))

end

end Grammar

namespace Expr

variable {α : Type} [Scalar α]

/-- A text that the grammar derives within both limits is accepted. -/
theorem parse_of_derives {d : Nat} {t : List Char} {e : Expr α} (hd : d ≤ maxNesting)
    (h : Derives d t e) (hlimit : e.operators ≤ maxOperators) : parse t = .ok e := by
  obtain ⟨r, hphrase, hblank⟩ := h
  obtain ⟨c, cs, hstart, -⟩ := hphrase.start
  have hbefore : (State.start t).skipBlanks.Before t 0 := by
    refine ⟨?_, rfl⟩
    rw [State.rest_skipBlanks, trimStart_trimStart]
    rfl
  have hpull : pull r < 1 := by
    rw [pull_of_isBlank hblank]
    exact Nat.one_pos
  obtain ⟨u, hrun, hu⟩ := (hphrase.completes hd).1 hbefore
    (by rw [Nat.zero_add]; exact hlimit) hpull
  have hexpression : (Parser.expression maxNesting).run (State.start t).skipBlanks =
      .ok (e, u) := hrun
  have hne : (State.start t).skipBlanks.rest ≠ [] := by
    rw [State.rest_skipBlanks, State.start, hstart]
    exact List.cons_ne_nil _ _
  have hend : u.skipBlanks.rest = [] := by
    rw [State.rest_skipBlanks, hu.rest]
    exact (trimStart_eq_nil_iff r).2 hblank
  simp only [parse]
  rw [if_neg hne, hexpression]
  exact if_pos hend

/-- Exactly the texts are accepted that the grammar derives, and the tree is the one that it
prescribes: the text is nested at most `maxNesting` levels deep, and the tree has at most
`maxOperators` operators and calls. -/
theorem parse_eq_ok_iff_derives (t : List Char) (e : Expr α) :
    parse t = .ok e ↔
      (∃ d ≤ maxNesting, Derives d t e) ∧ e.operators ≤ maxOperators := by
  constructor
  · exact derives_of_parse
  · rintro ⟨⟨d, hd, h⟩, hlimit⟩
    exact parse_of_derives hd h hlimit

end Expr

end TradeRules
