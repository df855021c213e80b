import TradeRules.Proofs.Expr.Grammar

/-!
# What is read is a phrase

Every reader of `Parser` returns only what the grammar derives from the text it has read, counts
the operators and calls of what it returns exactly, and stays within the number of nested levels
it was given. `Reads` gathers the three; each reader keeps it, given that the readers
it is made of do. `sound_expression` is the sum of them.
-/

namespace TradeRules

open Text Number Grammar

namespace State

/-- Counting an operator moves nothing else and stays within the limit. -/
theorem of_addOperator {s t : State} (h : s.addOperator = .ok t) :
    t.rest = s.rest ∧ t.operators = s.operators + 1 ∧ t.operators ≤ maxOperators := by
  simp only [addOperator] at h
  split at h
  · cases h
  · rename_i hlimit
    cases h
    exact ⟨rfl, rfl, Nat.lt_of_not_le hlimit⟩

end State

namespace Parser

variable {α : Type} [Scalar α]

/-- Between two places stands a phrase that means `e`, nested at most `levels` deep. -/
structure Reads (p levels : Nat) (s : State) (e : Expr α) (t : State) : Prop where
  /-- The grammar derives it; blanks after it may have been skipped. -/
  phrase : ∃ d ≤ levels, ∃ r, Phrase p d s.rest e r ∧ trimStart t.rest = trimStart r
  /-- Its operators and calls were counted. -/
  operators : t.operators = s.operators + e.operators
  /-- The limit on them was kept. -/
  bounded : s.operators ≤ maxOperators → t.operators ≤ maxOperators

/-- A reader that returns nothing but phrases of level `p`. -/
def Sound (p levels : Nat) (reader : Parser α) : Prop :=
  ∀ {s t : State} {e : Expr α}, reader.run s = .ok (e, t) → Reads p levels s e t

/-- A reader for one level further inside, if there is one. -/
def SoundInside (p levels : Nat) (reader : Option (Parser α)) : Prop :=
  ∀ inner, reader = some inner → ∃ n < levels, Sound p n inner

namespace Reads

variable {p levels : Nat} {s s' t t' : State} {e : Expr α}

/-- What was read may be handed on as a phrase of a lower level. -/
theorem tighter (h : Reads (p + 1) levels s e t) : Reads p levels s e t := by
  obtain ⟨d, hd, r, hphrase, hr⟩ := h.phrase
  exact ⟨⟨d, hd, r, hphrase.tighter, hr⟩, h.operators, h.bounded⟩

/-- Blanks before and after what was read do not count. -/
theorem of_trimStart (h : Reads p levels s e t) (hs : trimStart s.rest = trimStart s'.rest)
    (hsops : s'.operators = s.operators) (ht : trimStart t'.rest = trimStart t.rest)
    (htops : t'.operators = t.operators) : Reads p levels s' e t' := by
  obtain ⟨d, hd, r, hphrase, hr⟩ := h.phrase
  refine ⟨⟨d, hd, r, hphrase.of_trimStart hs, ht.trans hr⟩, ?_, ?_⟩
  · rw [htops, hsops, h.operators]
  · rw [htops, hsops]
    exact h.bounded

/-- Two operands with a counted operator between them make one phrase. -/
theorem binary {pl pr : Nat} {op : BinaryOp} {a b : Expr α} {s₀ s₁ s₂ s₃ s₄ : State}
    (make : ∀ {d₁ d₂ : Nat} {x y z : List Char}, Phrase pl d₁ s₀.rest a x → Operator op x y →
      Phrase pr d₂ y b z → Phrase p (max d₁ d₂) s₀.rest (.binary op a b) z)
    (left : Reads pl levels s₀ a s₁) (operator : Operator op s₁.rest s₂.rest)
    (same : s₂.operators = s₁.operators) (counted : s₂.addOperator = .ok s₃)
    (right : Reads pr levels s₃ b s₄) : Reads p levels s₀ (.binary op a b) s₄ := by
  obtain ⟨d₁, hd₁, x, hx, hrest₁⟩ := left.phrase
  obtain ⟨d₂, hd₂, z, hz, hrest₄⟩ := right.phrase
  obtain ⟨hrest, hops, hlimit⟩ := State.of_addOperator counted
  rw [hrest] at hz
  refine ⟨⟨max d₁ d₂, Nat.max_le.2 ⟨hd₁, hd₂⟩, z, ?_, hrest₄⟩, ?_, fun _ => right.bounded hlimit⟩
  · exact make hx ((operator_iff_of_trimStart hrest₁).1 operator) hz
  · rw [right.operators, hops, same, left.operators, Expr.operators]
    omega

end Reads

/-- The rest of a row extends the phrase that was read before it. -/
theorem reads_continueRow {k : Chain} {operand : Parser α} {levels : Nat}
    (hoperand : Sound (k.binding + 1) levels operand) {s₀ s t : State} {left e : Expr α}
    (hleft : Reads k.binding levels s₀ left s) (h : k.continueRow operand left s = .ok (e, t)) :
    Reads k.binding levels s₀ e t := by
  fun_induction Chain.continueRow k operand left s with
  | case1 left s =>
    cases h
    exact hleft.of_trimStart rfl rfl (by simp) rfl
  | case2 => cases h
  | case3 => cases h
  | case4 left s op s₁ hop s₂ hadd right s₃ hrun ih =>
    obtain ⟨hoperator, hbinding, hassoc, hops⟩ := Chain.operator_of_operator? hop
    refine ih (Reads.binary ?_ hleft hoperator hops hadd (hoperand hrun)) h
    intro d₁ d₂ x y z hx hy hz
    rw [← hbinding] at hx hz ⊢
    exact .row hassoc hx hy hz

/-- A row of sound operands is sound. -/
theorem sound_chain {k : Chain} {operand : Parser α} {levels : Nat}
    (hoperand : Sound (k.binding + 1) levels operand) :
    Sound k.binding levels (chain k operand) := by
  intro s t e h
  simp only [chain] at h
  split at h
  · cases h
  · rename_i left s₁ hleft
    exact reads_continueRow hoperand (hoperand hleft).tighter h

/-- Between two places stands an argument list, nested at most `levels` deep. -/
structure ReadsArguments (levels : Nat) (s : State) (as : List (Expr α)) (t : State) : Prop where
  /-- The grammar derives it. -/
  phrase : ∃ d ≤ levels, Arguments d s.rest as t.rest
  /-- The operators and calls of the arguments were counted. -/
  operators : t.operators = s.operators + Expr.operatorsIn as
  /-- The limit on them was kept. -/
  bounded : s.operators ≤ maxOperators → t.operators ≤ maxOperators

/-- What follows an argument completes the row of arguments and closes it. -/
theorem row_of_moreArguments {argument : Parser α} {levels : Nat}
    (hargument : Sound 1 levels argument) {s₀ s t : State} {a : Expr α} {as : List (Expr α)}
    (hfirst : Reads 1 levels s₀ a s) (h : moreArguments argument s = .ok (as, t)) :
    (∃ d ≤ levels, ∃ r, Phrases d s₀.rest (a :: as) r ∧ Token [')'] r t.rest) ∧
      t.operators = s₀.operators + Expr.operatorsIn (a :: as) ∧
      (s₀.operators ≤ maxOperators → t.operators ≤ maxOperators) := by
  fun_induction moreArguments argument s generalizing s₀ a as t with
  | case1 s hclosing =>
    cases h
    obtain ⟨d, hd, r, hphrase, hr⟩ := hfirst.phrase
    refine ⟨⟨d, hd, r, .one hphrase, ?_⟩, ?_, hfirst.bounded⟩
    · exact (token_iff_of_trimStart hr).1 (State.token_of_startsWith hclosing)
    · simp only [State.operators_consume, State.operators_skipBlanks, Expr.operatorsIn,
        hfirst.operators, Nat.add_zero]
  | case2 => cases h
  | case3 => cases h
  | case4 => cases h
  | case5 s hopen s₁ hcomma a' s₂ hrun as' s₃ hmore ih =>
    cases h
    obtain ⟨d₁, hd₁, r₁, hphrase, hr₁⟩ := hfirst.phrase
    obtain ⟨htoken, hops⟩ := State.token_of_expect hcomma
    obtain ⟨⟨d₂, hd₂, r, hrow, hclosing⟩, hops₂, hbounded⟩ := ih (hargument hrun) hmore
    refine ⟨⟨max d₁ d₂, Nat.max_le.2 ⟨hd₁, hd₂⟩, r, ?_, hclosing⟩, ?_, fun hs => ?_⟩
    · exact .more hphrase ((token_iff_of_trimStart hr₁).1 htoken) hrow
    · rw [hops₂, hops, hfirst.operators]
      simp only [Expr.operatorsIn]
      omega
    · exact hbounded (hops ▸ hfirst.bounded hs)

/-- An argument list that was read is one. -/
theorem reads_arguments {expression : Option (Parser α)} {levels : Nat}
    (hinner : SoundInside 1 levels expression) {s t : State} {as : List (Expr α)}
    (h : arguments expression s = .ok (as, t)) : ReadsArguments levels s as t := by
  simp only [arguments] at h
  split at h
  · cases h
  · rename_i s₁ hopening
    obtain ⟨htoken, hops⟩ := State.token_of_expect hopening
    split at h
    · rename_i hclosing
      cases h
      refine ⟨⟨0, Nat.zero_le _, .none htoken ?_⟩, ?_, ?_⟩
      · have hclose := State.token_of_startsWith (s := s₁) (c := ')') hclosing
        exact hclose
      · simp [Expr.operatorsIn, hops]
      · intro hs
        simpa [hops] using hs
    · split at h
      · cases h
      · rename_i inner
        obtain ⟨n, hn, hsound⟩ := hinner inner rfl
        split at h
        · cases h
        · rename_i a s₃ hrun
          have hfirst : Reads 1 n s₁ a s₃ := (hsound hrun).of_trimStart (by simp) rfl rfl rfl
          split at h
          · cases h
          · rename_i as' s₄ hmore
            cases h
            obtain ⟨⟨d, hd, r, hrow, hclosing⟩, hops', hbounded⟩ :=
              row_of_moreArguments hsound hfirst hmore
            refine ⟨⟨d + 1, Nat.lt_of_le_of_lt hd hn, .some htoken hrow hclosing⟩, ?_, ?_⟩
            · rw [hops', hops]
            · rw [← hops]
              exact hbounded

/-- A group that was read after its opening parenthesis is a phrase in parentheses. -/
theorem reads_group {expression : Option (Parser α)} {levels : Nat}
    (hinner : SoundInside 1 levels expression) {s₀ s t : State} {e : Expr α}
    (hopening : Token ['('] s₀.rest s.rest) (hops : s.operators = s₀.operators)
    (h : group expression s = .ok (e, t)) : Reads 7 levels s₀ e t := by
  simp only [group] at h
  split at h
  · cases h
  · rename_i inner
    obtain ⟨n, hn, hsound⟩ := hinner inner rfl
    split at h
    · cases h
    · rename_i e' s₁ hrun
      obtain ⟨⟨d, hd, r, hphrase, hr⟩, hops', hbounded⟩ := hsound hrun
      split at h
      · cases h
      · rename_i s₂ hclosing
        cases h
        obtain ⟨htoken, hops₂⟩ := State.token_of_expect hclosing
        rw [token_iff_of_trimStart hr] at htoken
        refine ⟨⟨d + 1, Nat.lt_of_le_of_lt hd hn, t.rest, .group hopening hphrase htoken, rfl⟩,
          ?_, ?_⟩
        · rw [hops₂, hops', hops]
        · rw [hops₂, ← hops]
          exact hbounded

/-- A name that was read stands alone or before its arguments. -/
theorem reads_named {expression : Option (Parser α)} {levels : Nat}
    (hinner : SoundInside 1 levels expression) {s t : State} {e : Expr α}
    (hstart : s.skipBlanks.rest.head?.any isNameStart = true)
    (h : named expression s.skipBlanks = .ok (e, t)) : Reads 7 levels s e t := by
  have hword := s.word_word
  simp only [named] at h
  split at h
  · cases h
  · rename_i hkeyword
    have hname : IsName s.skipBlanks.word := State.isName_word hstart hkeyword
    split at h
    · rename_i hopening
      split at h
      · cases h
      · rename_i s₂ hadd
        split at h
        · cases h
        · rename_i as s₃ hargs
          cases h
          obtain ⟨hrest, hops, hlimit⟩ := State.of_addOperator hadd
          obtain ⟨⟨d, hd, harguments⟩, hops', hbounded⟩ := reads_arguments hinner hargs
          have hsame : trimStart s₂.rest =
              trimStart (s.skipBlanks.consume s.skipBlanks.word.length).rest := by
            rw [hrest, State.rest_skipBlanks, trimStart_trimStart]
          refine ⟨⟨d, hd, t.rest, .call hname hword (harguments.of_trimStart hsame), rfl⟩, ?_,
            fun _ => hbounded hlimit⟩
          rw [hops', hops, Expr.operators]
          simp only [State.operators_skipBlanks, State.operators_consume]
          omega
    · cases h
      exact ⟨⟨0, Nat.zero_le _, _, .name hname hword, by simp⟩, rfl, fun hs => hs⟩

/-- What is read in place of an operand is one. -/
theorem sound_primary {expression : Option (Parser α)} {levels : Nat}
    (hinner : SoundInside 1 levels expression) : Sound 7 levels (primary expression) := by
  intro s t e h
  simp only [primary] at h
  split at h
  · cases h
  · rename_i c cs hs
    split at h
    · rename_i hc
      have hstart : s.skipBlanks.startsWith '(' = true := by
        rw [State.startsWith, hs, hc]
        rfl
      exact reads_group hinner (State.token_of_startsWith hstart) rfl h
    · split at h
      · split at h
        · cases h
        · rename_i x s₁ hnumber
          cases h
          obtain ⟨htoken, hops⟩ := State.numberToken_of_number hnumber
          refine ⟨⟨0, Nat.zero_le _, t.rest, .literal htoken, rfl⟩, hops, fun hs => ?_⟩
          rw [hops]
          exact hs
      · split at h
        · rename_i hname
          refine reads_named hinner ?_ h
          rw [hs]
          exact hname
        · cases h

/-- What is read as a sum or a comparison is one. -/
theorem sound_comparison {expression : Option (Parser α)} {levels : Nat}
    (hinner : SoundInside 1 levels expression) : Sound 4 levels (comparison expression) := by
  have hsum : Sound 5 levels (chain .sum (chain .product (primary expression))) :=
    sound_chain (k := .sum) (sound_chain (k := .product) (sound_primary hinner))
  intro s t e h
  simp only [comparison] at h
  split at h
  · cases h
  · rename_i left s₁ hleft
    split at h
    · cases h
    · cases h
      exact (hsum hleft).tighter
    · rename_i c s₂ hc
      split at h
      · cases h
      · rename_i s₃ hadd
        split at h
        · cases h
        · rename_i right s₄ hright
          split at h
          · cases h
          · cases h
          · cases h
            obtain ⟨hoperator, hops⟩ := State.operator_of_comparison? hc
            exact Reads.binary .comparison (hsum hleft) hoperator hops hadd (hsum hright)

/-- Rows over sound negations are sound. -/
theorem sound_expressionOver {reader : Parser α} {levels : Nat} (h : Sound 3 levels reader) :
    Sound 1 levels (expressionOver reader) :=
  sound_chain (k := .disjunction) (sound_chain (k := .conjunction) h)

/-- What is read as a negation or a comparison is one. -/
theorem sound_negationOver {deeper : Option (Parser α)} {levels : Nat}
    (hinner : SoundInside 3 levels deeper) : Sound 3 levels (negationOver deeper) := by
  have hexpression : SoundInside 1 levels (deeper.map expressionOver) := by
    intro inner hmap
    obtain ⟨reader, hreader, rfl⟩ := Option.map_eq_some_iff.1 hmap
    obtain ⟨n, hn, hsound⟩ := hinner reader hreader
    exact ⟨n, hn, sound_expressionOver hsound⟩
  intro s t e h
  simp only [negationOver] at h
  split at h
  · exact (sound_comparison hexpression h).tighter
  · rename_i s₁ hkeyword
    obtain ⟨hword, hops⟩ := State.word_of_keyword? hkeyword
    split at h
    · cases h
    · rename_i s₂ hadd
      obtain ⟨hrest, hops₂, hlimit⟩ := State.of_addOperator hadd
      split at h
      · cases h
      · rename_i reader
        obtain ⟨n, hn, hsound⟩ := hinner reader rfl
        split at h
        · cases h
        · rename_i e' s₃ hrun
          cases h
          obtain ⟨⟨d, hd, r, hphrase, hr⟩, hops₃, hbounded⟩ := hsound hrun
          rw [hrest] at hphrase
          refine ⟨⟨d + 1, Nat.lt_of_le_of_lt hd hn, r, .negation hword hphrase, hr⟩, ?_,
            fun _ => hbounded hlimit⟩
          rw [hops₃, hops₂, hops, Expr.operators]
          omega

/-- Negations are read soundly at any number of nested levels. -/
theorem sound_negation (levels : Nat) : Sound 3 levels (negation levels : Parser α) := by
  induction levels with
  | zero => exact sound_negationOver fun inner h => by cases h
  | succ n ih =>
    refine sound_negationOver fun inner h => ?_
    cases h
    exact ⟨n, Nat.lt_succ_self n, ih⟩

/-- Expressions are read soundly at any number of nested levels. -/
theorem sound_expression (levels : Nat) : Sound 1 levels (expression levels : Parser α) :=
  sound_expressionOver (sound_negation levels)

end Parser

namespace Expr

variable {α : Type} [Scalar α]

/-- A text that is accepted is derived by the grammar, within both limits. -/
theorem derives_of_parse {t : List Char} {e : Expr α} (h : parse t = .ok e) :
    (∃ d ≤ maxNesting, Derives d t e) ∧ e.operators ≤ maxOperators := by
  simp only [parse] at h
  split at h
  · cases h
  · split at h
    · cases h
    · rename_i e' s₁ hrun
      split at h
      · rename_i hend
        cases h
        obtain ⟨⟨d, hd, r, hphrase, hr⟩, hops, hbounded⟩ := Parser.sound_expression _ hrun
        rw [State.rest_skipBlanks, hr, trimStart_eq_nil_iff] at hend
        refine ⟨⟨d, hd, r, hphrase.of_trimStart (by simp [State.start]), hend⟩, ?_⟩
        have hcount : s₁.operators = e.operators := by
          rw [hops]
          exact Nat.zero_add _
        rw [← hcount]
        exact hbounded (Nat.zero_le _)
      · cases h

end Expr

end TradeRules
