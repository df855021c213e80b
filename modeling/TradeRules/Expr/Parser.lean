import TradeRules.Expr.State

/-!
# Reading expressions

From the loosest binding to the tightest: `OR`, `AND`, `NOT`, one comparison, sums, products, and
what needs no parentheses. Parentheses, argument lists with an argument and negations open
a nested level; the number of levels that are left is the recursion of `negation`, so that
nothing is nested more deeply than `maxNesting`. Rows of equally strong operators are read in a
loop, which ends because every operand makes progress.
-/

namespace TradeRules

variable {α : Type}

/-- A reader of expressions that never succeeds without reading. -/
structure Parser (α : Type) where
  /-- The expression at a place and the place after it. -/
  run : State → Except ParseError (Expr α × State)
  /-- Less remains after an expression than before it. -/
  progress : ∀ {s : State} {e : Expr α} {t : State},
    run s = .ok (e, t) → t.rest.length < s.rest.length

/-- Rows of operands between operators of one strength. -/
inductive Chain where
  | disjunction
  | conjunction
  | sum
  | product
  deriving DecidableEq, Repr

namespace Chain

/-- The operator of a row that comes after blanks, and the state after it. -/
def operator? : Chain → State → Option (BinaryOp × State)
  | .disjunction, s => (s.keyword? "OR".toList).map (.or, ·)
  | .conjunction, s => (s.keyword? "AND".toList).map (.and, ·)
  | .sum, s =>
    let s := s.skipBlanks
    if s.startsWith '+' then some (.compute .add, s.consume 1)
    else if s.startsWith '-' then some (.compute .sub, s.consume 1)
    else none
  | .product, s =>
    let s := s.skipBlanks
    if s.startsWith '*' then some (.compute .mul, s.consume 1)
    else if s.startsWith '/' then some (.compute .div, s.consume 1)
    else none

/-- An operator that came next shortens what remains. -/
theorem length_lt_of_operator? {k : Chain} {s t : State} {op : BinaryOp}
    (h : k.operator? s = some (op, t)) : t.rest.length < s.rest.length := by
  have mark : ∀ {c : Char}, s.skipBlanks.startsWith c = true →
      (s.skipBlanks.consume 1).rest.length < s.rest.length := fun hc =>
    Nat.lt_of_lt_of_le (State.length_consume_lt Nat.one_pos (State.rest_ne_nil_of_startsWith hc))
      s.length_skipBlanks_le
  cases k with
  | disjunction | conjunction =>
    simp only [operator?, Option.map_eq_some_iff] at h
    obtain ⟨u, hu, he⟩ := h
    cases he
    exact State.length_lt_of_keyword? hu
  | sum | product =>
    simp only [operator?] at h
    split at h
    · rename_i hc
      cases h
      exact mark hc
    · split at h
      · rename_i hc
        cases h
        exact mark hc
      · cases h

/-- The rest of a row, whose operands so far are `left`. -/
def continueRow (k : Chain) (operand : Parser α) (left : Expr α) (s : State) :
    Except ParseError (Expr α × State) :=
  match _found : k.operator? s with
  | none => .ok (left, s.skipBlanks)
  | some (op, s₁) =>
    match _counted : s₁.addOperator with
    | .error e => .error e
    | .ok s₂ =>
      match _read : operand.run s₂ with
      | .error e => .error e
      | .ok (right, s₃) => continueRow k operand (.binary op left right) s₃
termination_by s.rest.length
decreasing_by
  have a := length_lt_of_operator? _found
  have b := operand.progress _read
  rw [State.rest_of_addOperator _counted] at b
  exact Nat.lt_trans b a

/-- The rest of a row does not give anything back. -/
theorem length_le_of_continueRow {k : Chain} {operand : Parser α} {left e : Expr α} {s t : State}
    (h : k.continueRow operand left s = .ok (e, t)) : t.rest.length ≤ s.rest.length := by
  fun_induction continueRow k operand left s with
  | case1 =>
    cases h
    exact State.length_skipBlanks_le _
  | case2 => cases h
  | case3 => cases h
  | case4 left s op s₁ hop s₂ hadd right s₃ hrun ih =>
    have a := length_lt_of_operator? hop
    have b := operand.progress hrun
    rw [State.rest_of_addOperator hadd] at b
    have := ih h
    omega

end Chain

namespace Parser

/-- A row of operands, grouped from the left. -/
def chain (k : Chain) (operand : Parser α) : Parser α where
  run s :=
    match operand.run s with
    | .error e => .error e
    | .ok (left, s₁) => k.continueRow operand left s₁
  progress := by
    intro s e t h
    split at h
    · cases h
    · rename_i h₁
      exact Nat.lt_of_le_of_lt (Chain.length_le_of_continueRow h) (operand.progress h₁)

/-- The arguments after the first, up to the closing parenthesis. -/
def moreArguments (argument : Parser α) (s : State) :
    Except ParseError (List (Expr α) × State) :=
  if s.skipBlanks.startsWith ')' then .ok ([], s.skipBlanks.consume 1)
  else
    match _comma : s.expect ',' with
    | .error e => .error e
    | .ok s₁ =>
      match _read : argument.run s₁ with
      | .error e => .error e
      | .ok (a, s₂) =>
        match moreArguments argument s₂ with
        | .error e => .error e
        | .ok (as, s₃) => .ok (a :: as, s₃)
termination_by s.rest.length
decreasing_by exact Nat.lt_trans (argument.progress _read) (State.length_lt_of_expect _comma)

theorem length_le_of_moreArguments {argument : Parser α} {as : List (Expr α)} {s t : State}
    (h : moreArguments argument s = .ok (as, t)) : t.rest.length ≤ s.rest.length := by
  fun_induction moreArguments argument s generalizing as t with
  | case1 s hs =>
    cases h
    have := s.length_skipBlanks_le
    simp only [State.length_consume]
    omega
  | case2 => cases h
  | case3 => cases h
  | case4 => cases h
  | case5 s hs s₁ hexp a s₂ hrun as' s₃ hmore ih =>
    cases h
    have := ih hmore
    have := argument.progress hrun
    have := State.length_lt_of_expect hexp
    omega

/-- An argument list with its parentheses. `expression` reads one level deeper, if there is one. -/
def arguments (expression : Option (Parser α)) (s : State) :
    Except ParseError (List (Expr α) × State) :=
  match s.expect '(' with
  | .error e => .error e
  | .ok s₁ =>
    let s₂ := s₁.skipBlanks
    if s₂.startsWith ')' then .ok ([], s₂.consume 1)
    else
      match expression with
      | none => .error (s₂.fail .tooDeep)
      | some expression =>
        match expression.run s₂ with
        | .error e => .error e
        | .ok (a, s₃) =>
          match moreArguments expression s₃ with
          | .error e => .error e
          | .ok (as, s₄) => .ok (a :: as, s₄)

theorem length_le_of_arguments {expression : Option (Parser α)} {as : List (Expr α)}
    {s t : State} (h : arguments expression s = .ok (as, t)) :
    t.rest.length ≤ s.rest.length := by
  simp only [arguments] at h
  split at h
  · cases h
  · rename_i s₁ hexp
    have h₁ := State.length_lt_of_expect hexp
    have h₂ := s₁.length_skipBlanks_le
    split at h
    · cases h
      simp only [State.length_consume]
      omega
    · split at h
      · cases h
      · split at h
        · cases h
        · rename_i p _ _ _ hrun
          have h₃ := p.progress hrun
          split at h
          · cases h
          · rename_i hmore
            cases h
            have := length_le_of_moreArguments hmore
            omega

/-- An expression in parentheses, whose opening one was read. -/
def group (expression : Option (Parser α)) (s : State) : Except ParseError (Expr α × State) :=
  match expression with
  | none => .error (s.fail .tooDeep)
  | some expression =>
    match expression.run s with
    | .error e => .error e
    | .ok (e, s₁) =>
      match s₁.expect ')' with
      | .error e => .error e
      | .ok s₂ => .ok (e, s₂)

theorem length_le_of_group {expression : Option (Parser α)} {e : Expr α} {s t : State}
    (h : group expression s = .ok (e, t)) : t.rest.length ≤ s.rest.length := by
  simp only [group] at h
  split at h
  · cases h
  · split at h
    · cases h
    · rename_i p _ _ _ hrun
      have h₁ := p.progress hrun
      split at h
      · cases h
      · rename_i hexp
        cases h
        have := State.length_lt_of_expect hexp
        omega

/-- A property, or a function with its arguments. -/
def named (expression : Option (Parser α)) (s : State) : Except ParseError (Expr α × State) :=
  if s.word ∈ keywords then .error (s.fail (.keywordAsOperand s.word))
  else
    let name := String.ofList s.word
    let s₁ := (s.consume s.word.length).skipBlanks
    if s₁.startsWith '(' then
      match s₁.addOperator with
      | .error e => .error e
      | .ok s₂ =>
        match arguments expression s₂ with
        | .error e => .error e
        | .ok (as, s₃) => .ok (.call name as, s₃)
    else .ok (.name name, s₁)

theorem length_lt_of_named {expression : Option (Parser α)} {e : Expr α} {s t : State}
    (hw : s.word ≠ []) (h : named expression s = .ok (e, t)) :
    t.rest.length < s.rest.length := by
  have hne : s.rest ≠ [] := by
    intro h'
    exact hw (by simp [State.word, h'])
  have h₁ : (s.consume s.word.length).skipBlanks.rest.length < s.rest.length :=
    Nat.lt_of_le_of_lt (State.length_skipBlanks_le _)
      (State.length_consume_lt (List.length_pos_iff.2 hw) hne)
  simp only [named] at h
  split at h
  · cases h
  · split at h
    · split at h
      · cases h
      · rename_i s₂ hadd
        split at h
        · cases h
        · rename_i hargs
          cases h
          have := length_le_of_arguments hargs
          rw [State.rest_of_addOperator hadd] at this
          omega
    · cases h
      exact h₁

variable [Scalar α]

/-- What needs no parentheses: a group, a number, a property or a call. -/
def primary (expression : Option (Parser α)) : Parser α where
  run s :=
    let s := s.skipBlanks
    match s.rest with
    | [] => .error (s.fail (.expectedOperand .endOfInput))
    | c :: _ =>
      if c = '(' then group expression (s.consume 1)
      else if s.startsNumber then
        match (s.number : Except ParseError (α × State)) with
        | .error e => .error e
        | .ok (x, s₁) => .ok (.literal x, s₁)
      else if isNameStart c then named expression s
      else .error (s.fail (.expectedOperand (.text [c])))
  progress := by
    intro s e t h
    have hs := s.length_skipBlanks_le
    simp only at h
    split at h
    · cases h
    · rename_i c r hr
      split at h
      · have := length_le_of_group h
        simp only [State.length_consume, hr, List.length_cons] at *
        omega
      · split at h
        · split at h
          · cases h
          · rename_i hnum
            cases h
            have := State.length_lt_of_number hnum
            omega
        · split at h
          · rename_i hc
            have hw : s.skipBlanks.word ≠ [] := by
              have hn : isNameChar c = true := by
                simp only [isNameStart, isNameChar, Char.isAlphanum, Bool.or_eq_true] at hc ⊢
                rcases hc with hc | hc <;> simp [hc]
              simp [State.word, hr, hn]
            have := length_lt_of_named hw h
            omega
          · cases h

/-- A sum, or a comparison of two sums. A second comparison is an error. -/
def comparison (expression : Option (Parser α)) : Parser α where
  run s :=
    let sum := chain .sum (chain .product (primary expression))
    match sum.run s with
    | .error e => .error e
    | .ok (left, s₁) =>
      match s₁.comparison? with
      | .error e => .error e
      | .ok none => .ok (left, s₁)
      | .ok (some (c, s₂)) =>
        match s₂.addOperator with
        | .error e => .error e
        | .ok s₃ =>
          match sum.run s₃ with
          | .error e => .error e
          | .ok (right, s₄) =>
            match s₄.comparison? with
            | .error e => .error e
            | .ok (some (_, s₅)) => .error (s₅.fail .chainedComparison)
            | .ok none => .ok (.binary (.compare c) left right, s₄)
  progress := by
    intro s e t h
    simp only at h
    split at h
    · cases h
    · rename_i left s₁ h₁
      have a := Parser.progress _ h₁
      split at h
      · cases h
      · cases h
        exact a
      · rename_i c s₂ h₂
        have b := State.length_lt_of_comparison? h₂
        split at h
        · cases h
        · rename_i s₃ h₃
          split at h
          · cases h
          · rename_i right s₄ h₄
            have d := Parser.progress _ h₄
            rw [State.rest_of_addOperator h₃] at d
            split at h
            · cases h
            · cases h
            · cases h
              omega

/-- Negations joined by `AND`, and those joined by `OR`. -/
def expressionOver (negation : Parser α) : Parser α :=
  chain .disjunction (chain .conjunction negation)

/-- A negation or a comparison. `deeper` reads negations one level deeper, if there is one. -/
def negationOver (deeper : Option (Parser α)) : Parser α where
  run s :=
    match s.keyword? "NOT".toList with
    | none => (comparison (deeper.map expressionOver)).run s
    | some s₁ =>
      match s₁.addOperator with
      | .error e => .error e
      | .ok s₂ =>
        match deeper with
        | none => .error (s₂.fail .tooDeep)
        | some negation =>
          match negation.run s₂ with
          | .error e => .error e
          | .ok (e, s₃) => .ok (.not e, s₃)
  progress := by
    intro s e t h
    split at h
    · exact Parser.progress _ h
    · rename_i s₁ h₁
      have a := State.length_lt_of_keyword? h₁
      split at h
      · cases h
      · rename_i s₂ h₂
        split at h
        · cases h
        · rename_i p
          split at h
          · cases h
          · rename_i h₃
            cases h
            have b := p.progress h₃
            rw [State.rest_of_addOperator h₂] at b
            omega

/-- A negation or a comparison with at most `levels` nested levels. -/
def negation : Nat → Parser α
  | 0 => negationOver none
  | levels + 1 => negationOver (some (negation levels))

/-- An expression with at most `levels` nested levels. -/
def expression (levels : Nat) : Parser α := expressionOver (negation levels)

end Parser

namespace Expr

/-- The expression that a whole text spells. -/
def parse {α : Type} [Scalar α] (text : List Char) : Except ParseError (Expr α) :=
  let s := (State.start text).skipBlanks
  if s.rest = [] then .error (s.fail .emptyExpression)
  else
    match (Parser.expression maxNesting).run s with
    | .error e => .error e
    | .ok (e, s₁) =>
      let s₂ := s₁.skipBlanks
      if s₂.rest = [] then .ok e else .error (s₂.fail (.trailingInput s₂.rest))

/-- The expression that a string spells. -/
def ofString {α : Type} [Scalar α] (text : String) : Except ParseError (Expr α) := parse text.toList

end Expr

end TradeRules
