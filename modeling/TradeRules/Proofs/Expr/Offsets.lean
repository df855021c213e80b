import TradeRules.Proofs.Expr.Caret
import TradeRules.Proofs.Expr.Completeness
import TradeRules.Proofs.Expr.Descent
import TradeRules.Proofs.Expr.Passing

/-!
# Offsets in a text

The procedures that parse by position do what the readers of `Parser` do (`Follows`): each body
does, given that what it calls does. So a run over a text ends as `Expr.parse` says, and has come to
sound cursors only; it never cuts the text inside a character, and it leaves no level that it has
not entered (`Expr.offsets_valid`).
-/

namespace TradeRules

open Text Number Steps TradeRules.Parser

/-! ### Readers and blanks -/

namespace Parser

variable {α : Type}

/-- A reader for which blanks in front make no difference. -/
def SkipsBlanks (reader : Parser α) : Prop := ∀ s : State, reader.run s.skipBlanks = reader.run s

/-- Blanks in front of a row are blanks in front of its first operand. -/
theorem skipsBlanks_chain {k : Chain} {operand : Parser α} (h : operand.SkipsBlanks) :
    (chain k operand).SkipsBlanks := by
  intro s
  simp only [chain, h s]

variable [Scalar α]

theorem skipsBlanks_primary (expression : Option (Parser α)) :
    (primary expression).SkipsBlanks := by
  intro s
  simp only [primary, State.skipBlanks_skipBlanks]

theorem skipsBlanks_comparison (expression : Option (Parser α)) :
    (comparison expression).SkipsBlanks := by
  have hsum : (chain .sum (chain .product (primary expression))).SkipsBlanks :=
    skipsBlanks_chain (skipsBlanks_chain (skipsBlanks_primary expression))
  intro s
  simp only [comparison, hsum s]

omit [Scalar α] in
/-- Behind a row no blanks are left. -/
theorem skipBlanks_of_continueRow {k : Chain} {operand : Parser α} {left e : Expr α}
    {s t : State} (h : k.continueRow operand left s = .ok (e, t)) : t.skipBlanks = t := by
  fun_induction Chain.continueRow k operand left s with
  | case1 =>
    cases h
    exact State.skipBlanks_skipBlanks _
  | case2 => cases h
  | case3 => cases h
  | case4 left s op s₁ hop s₂ hadd right s₃ hrun ih => exact ih h

omit [Scalar α] in
theorem skipBlanks_of_chain {k : Chain} {operand : Parser α} {e : Expr α} {s t : State}
    (h : (chain k operand).run s = .ok (e, t)) : t.skipBlanks = t := by
  simp only [chain] at h
  split at h
  · cases h
  · exact skipBlanks_of_continueRow h

end Parser

/-! ### Procedures and readers -/

variable {α : Type} {β : Type} {text : List Char} {d levels : Nat} {active : List Activation}

/-- Steps that do what a reader does at every state that stands in the text. -/
def Follows (text : List Char) (d : Nat) (active : List Activation) (m : Steps β)
    (reader : State → Except ParseError (β × State)) : Prop :=
  ∀ s : State, s.Stands text d active → Agrees text d active m (s.cursor d active) (reader s)

section Results

variable {m : Steps β} {reader : State → Except ParseError (β × State)} {s t : State} {b : β}

theorem Follows.leads (h : Follows text d active m reader) (hs : s.Stands text d active)
    (hrun : reader s = .ok (b, t)) :
    Leads text m (s.cursor d active) b (t.cursor d active) := by
  have hagrees := h s hs
  rwa [hrun] at hagrees

theorem Follows.refuses {err : ParseError} (h : Follows text d active m reader)
    (hs : s.Stands text d active) (hrun : reader s = .error err) :
    Refuses text m (s.cursor d active) err := by
  have hagrees := h s hs
  rwa [hrun] at hagrees

end Results

/-- The rest of a row is read as far as there are operators, in fewer rounds than there are
characters. -/
theorem agrees_continueRow {k : Chain} {operand : Steps (Expr α)} {reader : Parser α}
    (hoperand : Follows text d active operand reader.run) (hkeeps : reader.KeepsPlace) {n : Nat}
    {s : State} (h : s.Stands text d active) (hn : s.rest.length < n) (left : Expr α) :
    Agrees text d active (continueRow text k operand n left) (s.cursor d active)
      (k.continueRow reader left s) := by
  induction n generalizing s left with
  | zero => exact absurd hn (Nat.not_lt_zero _)
  | succ n ih =>
    have hop := operator?_outcome h k
    rw [continueRow, Chain.continueRow]
    split
    · rename_i hnone
      rw [hnone] at hop
      exact hop.bind (leads_pure _ _)
    · rename_i op s₁ hsome
      rw [hsome] at hop
      have h₁ := h.reach (Chain.reaches_of_operator? hsome)
      split
      · rename_i hadd
        exact hop.refuses (refuses_addOperator h₁ hadd).bind
      · rename_i s₂ hadd
        have h₂ := h₁.reach (State.reaches_of_addOperator hadd)
        have hcount := leads_addOperator h₁ hadd
        split
        · rename_i hrun
          exact hop.refuses (hcount.refuses (hoperand.refuses h₂ hrun).bind)
        · rename_i right s₃ hrun
          have h₃ := h₂.reach (hkeeps.reaches hrun)
          -- The operator and the operand have left at least one character less.
          have hshorter : s₃.rest.length < n := by
            have hlt := Chain.length_lt_of_operator? hsome
            have hlt' := reader.progress hrun
            rw [State.rest_of_addOperator hadd] at hlt'
            omega
          exact hop.agrees (hcount.agrees ((hoperand.leads h₂ hrun).agrees (ih h₃ hshorter _)))

/-- A row follows its reader if its operands follow theirs. -/
theorem follows_row {k : Chain} {operand : Steps (Expr α)} {reader : Parser α}
    (hoperand : Follows text d active operand reader.run) (hkeeps : reader.KeepsPlace) :
    Follows text d active (row text k operand) (chain k reader).run := by
  intro s h
  simp only [chain]
  split
  · rename_i hrun
    exact (hoperand.refuses h hrun).bind
  · rename_i left s₁ hrun
    have h₁ := h.reach (hkeeps.reaches hrun)
    exact (hoperand.leads h hrun).agrees
      (agrees_continueRow hoperand hkeeps h₁ h₁.lies.length_lt left)

/-- The arguments after those that were read are read up to the closing parenthesis. -/
theorem agrees_moreArguments {argument : Steps (Expr α)} {reader : Parser α}
    (hargument : Follows text d active argument reader.run) (hkeeps : reader.KeepsPlace) {n : Nat}
    {s : State} (h : s.Stands text d active) (hn : s.rest.length < n) (read : List (Expr α)) :
    Agrees text d active (Steps.moreArguments text argument n read) (s.cursor d active)
      ((Parser.moreArguments reader s).map fun found => (read ++ found.1, found.2)) := by
  induction n generalizing s read with
  | zero => exact absurd hn (Nat.not_lt_zero _)
  | succ n ih =>
    have hblanks := leads_skipBlanks h
    have hpeek := leads_peek h.skipBlanks
    rw [Steps.moreArguments, Parser.moreArguments]
    split
    · rename_i hclosing
      obtain ⟨cs, hcs⟩ := startsWith_iff_isPrefix.1 hclosing
      refine hblanks.agrees (hpeek.agrees ?_)
      rw [if_pos (head?_eq_iff.2 hclosing)]
      refine (leads_advance h.skipBlanks hcs.symm).agrees ?_
      rw [Except.map, List.append_nil]
      exact leads_pure _ _
    · rename_i hopen
      refine hblanks.agrees (hpeek.agrees ?_)
      rw [if_neg (mt head?_eq_iff.1 hopen)]
      have hblank : s.skipBlanks.expect ',' = s.expect ',' := by
        simp only [State.expect, State.skipBlanks_skipBlanks]
      split
      · rename_i hcomma
        rw [← hblank] at hcomma
        exact (refuses_expect h.skipBlanks hcomma).bind
      · rename_i s₁ hcomma
        have h₁ := h.reach (State.reaches_of_expect rfl hcomma)
        have hlt := State.length_lt_of_expect hcomma
        rw [← hblank] at hcomma
        have hmark := leads_expect h.skipBlanks hcomma
        split
        · rename_i hrun
          exact hmark.agrees (hargument.refuses h₁ hrun).bind
        · rename_i a s₂ hrun
          have hlt' := reader.progress hrun
          have h₂ := h₁.reach (hkeeps.reaches hrun)
          have hlater := ih h₂ (by omega) (read ++ [a])
          refine hmark.agrees ((hargument.leads h₁ hrun).agrees ?_)
          split
          · rename_i hmore
            rwa [hmore] at hlater
          · rename_i hmore
            rw [hmore, Except.map, List.append_assoc] at hlater
            exact hlater

/-- The state behind the arguments was reached. -/
theorem reaches_of_moreArguments {reader : Parser α} (hkeeps : reader.KeepsPlace) {s t : State}
    {as : List (Expr α)} (h : Parser.moreArguments reader s = .ok (as, t)) : s.Reaches t := by
  have hmore := keeps_moreArguments hkeeps s
  rwa [h] at hmore

variable [Scalar α]

/-- What a procedure reads, with so many nested levels left. -/
def Procedure.read (levels : Nat) :
    (p : Procedure) → State → Except ParseError (p.Yield α × State)
  | .disjunction => (Parser.expression levels).run
  | .conjunction => (Parser.chain .conjunction (Parser.negation levels)).run
  | .negation => (Parser.negation levels).run
  | .comparison => (Parser.comparison (innerReader levels)).run
  | .sum => (Parser.chain .sum (Parser.chain .product (Parser.primary (innerReader levels)))).run
  | .product => (Parser.chain .product (Parser.primary (innerReader levels))).run
  | .primary => (Parser.primary (innerReader levels)).run
  | .arguments => Parser.arguments (innerReader levels)

/-- The readers further inside keep to the text. -/
theorem keepsPlaceInside_innerReader (levels : Nat) :
    KeepsPlaceInside (innerReader levels : Option (Parser α)) := by
  intro inner h
  cases levels with
  | zero => cases h
  | succ n =>
    cases h
    exact keepsPlace_expression n

/-- What a procedure has at hand: those that bind more tightly at its own nesting, and all of them
one level further inside. -/
structure Serves (text : List Char) (call : (q : Procedure) → Steps (q.Yield α))
    (d levels : Nat) (active : List Activation) (p : Procedure) : Prop where
  /-- The levels that are entered and those that are left make up the limit. -/
  levels_eq : d + levels = maxNesting
  /-- Calls at the same nesting go on to tighter procedures. -/
  inward : ∀ q : Procedure, p.level < q.level →
    Follows text d active (call q) (q.read levels)
  /-- Calls of the others have entered a level. -/
  deeper : ∀ n, levels = n + 1 → ∀ q : Procedure,
    Follows text (d + 1) active (call q) (q.read n)

namespace Serves

variable {call : (q : Procedure) → Steps (q.Yield α)} {p : Procedure}

/-- Another level can be entered while there are levels left. -/
theorem lt_maxNesting {n : Nat} (h : Serves text call d (n + 1) active p) : d < maxNesting := by
  have := h.levels_eq
  omega

/-- Negations and comparisons. -/
theorem negated (h : Serves text call d levels active .negation) :
    Follows text d active (Procedure.negated text call)
      (Procedure.read levels .negation : State → Except ParseError (Expr α × State)) := by
  intro s hs
  simp only [Procedure.read, negation_eq, negationOver]
  split
  · rename_i hword
    have hnone := leads_consumeWord?_false (w := "NOT".toList) hs rfl (by decide) hword
    have hcomparison := h.inward .comparison (by decide) s.skipBlanks hs.skipBlanks
    simp only [Procedure.read] at hcomparison
    rw [skipsBlanks_comparison] at hcomparison
    exact hnone.agrees hcomparison
  · rename_i s₁ hword
    have hsome := leads_consumeWord?_true (w := "NOT".toList) hs rfl hword
    have h₁ := hs.reach (State.reaches_of_keyword? hword)
    split
    · rename_i hadd
      exact hsome.agrees (refuses_addOperator h₁ hadd).bind
    · rename_i s₂ hadd
      have h₂ := h₁.reach (State.reaches_of_addOperator hadd)
      refine hsome.agrees ((leads_addOperator h₁ hadd).agrees ?_)
      cases levels with
      | zero =>
        obtain rfl : d = maxNesting := h.levels_eq
        exact (refuses_enter h₂).bind
      | succ n =>
        have hinner := h₂.deepen (Nat.le_of_lt h.lt_maxNesting)
        refine (leads_enter h₂ h.lt_maxNesting).agrees ?_
        simp only [Parser.deeper]
        split
        · rename_i hrun
          exact ((h.deeper n rfl .negation).refuses hinner hrun).bind
        · rename_i e s₃ hrun
          have h₃ := h₂.reach ((keepsPlace_negation n).reaches hrun)
          exact ((h.deeper n rfl .negation).leads hinner hrun).agrees
            ((leads_leave h₃).bind (leads_pure _ _))

/-- Sums and comparisons of two of them. -/
theorem compared (h : Serves text call d levels active .comparison) :
    Follows text d active (Procedure.compared text call)
      (Procedure.read levels .comparison : State → Except ParseError (Expr α × State)) := by
  have hsum := h.inward .sum (by decide)
  have hkeeps : (chain .sum (chain .product (primary (innerReader levels))) :
      Parser α).KeepsPlace :=
    keepsPlace_chain (keepsPlace_chain (keepsPlace_primary (keepsPlaceInside_innerReader levels)))
  intro s hs
  simp only [Procedure.read, comparison]
  split
  · rename_i hrun
    exact (hsum.refuses hs hrun).bind
  · rename_i left s₁ hrun
    have h₁ := hs.reach (hkeeps.reaches hrun)
    have hnext := comparison?_outcome h₁
    refine (hsum.leads hs hrun).agrees ?_
    split
    · rename_i hc
      rw [hc] at hnext
      exact hnext.bind
    · rename_i hc
      -- Blanks behind the sum were skipped already.
      rw [hc, skipBlanks_of_chain hrun] at hnext
      exact Leads.bind hnext (leads_pure _ _)
    · rename_i c s₂ hc
      rw [hc] at hnext
      have h₂ := h₁.reach (State.reaches_of_comparison? hc)
      refine Leads.agrees hnext ?_
      dsimp only
      split
      · rename_i hadd
        exact (refuses_addOperator h₂ hadd).bind
      · rename_i s₃ hadd
        have h₃ := h₂.reach (State.reaches_of_addOperator hadd)
        refine (leads_addOperator h₂ hadd).agrees ?_
        split
        · rename_i hright
          exact (hsum.refuses h₃ hright).bind
        · rename_i right s₄ hright
          have h₄ := h₃.reach (hkeeps.reaches hright)
          have hnext' := comparison?_outcome h₄
          refine (hsum.leads h₃ hright).agrees ?_
          split
          · rename_i hc'
            rw [hc'] at hnext'
            exact hnext'.bind
          · rename_i hc'
            rw [hc'] at hnext'
            exact Leads.agrees hnext' (refuses_refuse _ _ _ _)
          · rename_i hc'
            rw [hc', skipBlanks_of_chain hright] at hnext'
            exact Leads.bind hnext' (leads_pure _ _)

/-- Expressions in parentheses. -/
theorem grouped (h : Serves text call d levels active .primary) {s : State}
    (hs : s.Stands text d active) {cs : List Char} (hrest : s.rest = '(' :: cs) :
    Agrees text d active (Procedure.grouped text call) (s.cursor d active)
      (group (innerReader levels) (s.consume 1)) := by
  have h₁ := hs.consume 1
  refine (leads_advance hs hrest).agrees ?_
  cases levels with
  | zero =>
    obtain rfl : d = maxNesting := h.levels_eq
    exact (refuses_enter h₁).bind
  | succ n =>
    have hinner := h₁.deepen (Nat.le_of_lt h.lt_maxNesting)
    refine (leads_enter h₁ h.lt_maxNesting).agrees ?_
    rw [innerReader_succ]
    simp only [group]
    split
    · rename_i hrun
      exact ((h.deeper n rfl .disjunction).refuses hinner hrun).bind
    · rename_i e s₂ hrun
      have h₂ := hinner.reach ((keepsPlace_expression n).reaches hrun)
      refine ((h.deeper n rfl .disjunction).leads hinner hrun).agrees ?_
      split
      · rename_i hclosing
        exact (refuses_expect h₂ hclosing).bind
      · rename_i s₃ hclosing
        have h₃ := (h₁.reach ((keepsPlace_expression n).reaches hrun)).reach
          (State.reaches_of_expect rfl hclosing)
        exact (leads_expect h₂ hclosing).bind ((leads_leave h₃).bind (leads_pure _ _))

/-- Properties, and functions with their arguments. -/
theorem named (h : Serves text call d levels active .primary) {s : State}
    (hs : s.Stands text d active) :
    Agrees text d active (Procedure.named text call) (s.cursor d active)
      (Parser.named (innerReader levels) s) := by
  have hkeyword := leads_firstWord? hs keywords (by decide)
  simp only [Parser.named]
  split
  · rename_i hmem
    rw [if_pos hmem] at hkeyword
    exact hkeyword.agrees ((leads_remaining hs).agrees (refuses_refuse _ _ _ _))
  · rename_i hmem
    rw [if_neg hmem] at hkeyword
    have hword := hs.consume s.word.length
    refine hkeyword.agrees ((leads_name hs).agrees ((leads_skipBlanks hword).agrees
      ((leads_peek hword.skipBlanks).agrees ?_)))
    split
    · rename_i hopening
      rw [if_pos (head?_eq_iff.1 hopening)]
      split
      · rename_i hadd
        exact (refuses_addOperator hword.skipBlanks hadd).bind
      · rename_i s₂ hadd
        have h₂ := hword.skipBlanks.reach (State.reaches_of_addOperator hadd)
        refine (leads_addOperator hword.skipBlanks hadd).agrees ?_
        have harguments := h.inward .arguments (by decide)
        split
        · rename_i hrun
          exact (harguments.refuses h₂ hrun).bind
        · rename_i hrun
          exact (harguments.leads h₂ hrun).bind (leads_pure _ _)
    · rename_i hopening
      rw [if_neg (mt head?_eq_iff.2 hopening)]
      exact leads_pure _ _

/-- What needs no parentheses. -/
theorem operand (h : Serves text call d levels active .primary) :
    Follows text d active (Procedure.operand text call)
      (Procedure.read levels .primary : State → Except ParseError (Expr α × State)) := by
  intro s hs
  have hblanks := leads_skipBlanks hs
  have hpeek := leads_peek hs.skipBlanks
  simp only [Procedure.read, primary]
  split
  · rename_i hrest
    rw [hrest] at hpeek
    exact hblanks.agrees (hpeek.agrees (refuses_refuse _ _ _ _))
  · rename_i c cs hrest
    rw [hrest] at hpeek
    refine hblanks.agrees (hpeek.agrees ?_)
    dsimp only [List.head?_cons]
    split
    · rename_i hc
      rw [hc] at hrest
      exact h.grouped hs.skipBlanks hrest
    · refine (leads_numberIsNext hs.skipBlanks).agrees ?_
      have hnumber := agrees_number (α := α) hs.skipBlanks
      split
      · split
        · rename_i hrun
          rw [hrun] at hnumber
          exact Refuses.bind hnumber
        · rename_i hrun
          rw [hrun] at hnumber
          exact Leads.bind hnumber (leads_pure _ _)
      · split
        · exact h.named hs.skipBlanks
        · exact refuses_refuse _ _ _ _

/-- Argument lists. -/
theorem listed (h : Serves text call d levels active .arguments) :
    Follows text d active (Procedure.listed text call)
      (Procedure.read levels .arguments :
        State → Except ParseError (List (Expr α) × State)) := by
  intro s hs
  simp only [Procedure.read, Parser.arguments]
  split
  · rename_i hopening
    exact (refuses_expect hs hopening).bind
  · rename_i s₁ hopening
    have h₁ := hs.reach (State.reaches_of_expect rfl hopening)
    refine (leads_expect hs hopening).agrees ((leads_skipBlanks h₁).agrees
      ((leads_peek h₁.skipBlanks).agrees ?_))
    by_cases hclosing : s₁.skipBlanks.startsWith ')' = true
    · rw [if_pos (head?_eq_iff.2 hclosing), if_pos hclosing]
      obtain ⟨cs, hcs⟩ := startsWith_iff_isPrefix.1 hclosing
      exact (leads_advance h₁.skipBlanks hcs.symm).agrees (leads_pure _ _)
    · rw [if_neg (mt head?_eq_iff.1 hclosing), if_neg hclosing]
      cases levels with
      | zero =>
        obtain rfl : d = maxNesting := h.levels_eq
        exact (refuses_enter h₁.skipBlanks).bind
      | succ n =>
        have hinner := h₁.skipBlanks.deepen (Nat.le_of_lt h.lt_maxNesting)
        have hexpression := h.deeper n rfl .disjunction
        have hkeeps := keepsPlace_expression (α := α) n
        refine (leads_enter h₁.skipBlanks h.lt_maxNesting).agrees ?_
        rw [innerReader_succ]
        dsimp only
        split
        · rename_i hrun
          exact (hexpression.refuses hinner hrun).bind
        · rename_i a s₃ hrun
          have h₃ := hinner.reach (hkeeps.reaches hrun)
          have hmore := agrees_moreArguments hexpression hkeeps h₃ h₃.lies.length_lt [a]
          refine (hexpression.leads hinner hrun).agrees ?_
          split
          · rename_i hres
            rw [hres] at hmore
            exact Refuses.bind hmore
          · rename_i as s₄ hres
            rw [hres] at hmore
            have hlies := (h₁.skipBlanks.reach (hkeeps.reaches hrun)).reach
              (reaches_of_moreArguments hkeeps hres)
            exact Leads.bind hmore ((leads_leave hlies).bind (leads_pure _ _))

/-- Each procedure does what its reader does, given that what it calls does. -/
theorem body (h : Serves text call d levels active p) :
    Follows text d active (p.body text call) (p.read levels) := by
  have hinner := keepsPlaceInside_innerReader (α := α) levels
  have hproduct : (chain .product (primary (innerReader levels)) : Parser α).KeepsPlace :=
    keepsPlace_chain (keepsPlace_primary hinner)
  cases p with
  | disjunction =>
    exact follows_row (h.inward .conjunction (by decide))
      (keepsPlace_chain (keepsPlace_negation levels))
  | conjunction => exact follows_row (h.inward .negation (by decide)) (keepsPlace_negation levels)
  | negation => exact h.negated
  | comparison => exact h.compared
  | sum => exact follows_row (h.inward .product (by decide)) hproduct
  | product => exact follows_row (h.inward .primary (by decide)) (keepsPlace_primary hinner)
  | primary => exact h.operand
  | arguments => exact h.listed

end Serves

/-- The state behind what a procedure reads was reached. -/
theorem reaches_of_read {p : Procedure} {s t : State} {v : p.Yield α}
    (h : p.read levels s = .ok (v, t)) : s.Reaches t := by
  have hinner := keepsPlaceInside_innerReader (α := α) levels
  have hproduct : (chain .product (primary (innerReader levels)) : Parser α).KeepsPlace :=
    keepsPlace_chain (keepsPlace_primary hinner)
  cases p with
  | disjunction => exact (keepsPlace_expression levels).reaches h
  | conjunction => exact (keepsPlace_chain (keepsPlace_negation levels)).reaches h
  | negation => exact (keepsPlace_negation levels).reaches h
  | comparison => exact (keepsPlace_comparison hinner).reaches h
  | sum => exact (keepsPlace_chain hproduct).reaches h
  | product => exact hproduct.reaches h
  | primary => exact (keepsPlace_primary hinner).reaches h
  | arguments =>
    have hkeeps := keeps_arguments hinner s
    rw [Procedure.read] at h
    rwa [h] at hkeeps

/-- A procedure is at work while its body runs. -/
theorem agrees_during {p : Procedure} {m : Steps β} {s : State} (hs : s.Stands text d active)
    (hbefore : Precede active (Activation.rank ⟨p, d⟩)) (hd : d ≤ maxNesting)
    {result : Except ParseError (β × State)}
    (hkeeps : ∀ b t, result = .ok (b, t) → s.Reaches t)
    (hm : Agrees text d (⟨p, d⟩ :: active) m (s.cursor d (⟨p, d⟩ :: active)) result) :
    Agrees text d active (during p m) (s.cursor d active) result := by
  have hcalled : s.Stands text d (⟨p, d⟩ :: active) :=
    ⟨hs.lies, hs.depth_le, hs.stacked.call hbefore hd⟩
  refine Leads.agrees (leads_move hcalled.sound) ?_
  cases result with
  | error err => exact Refuses.bind hm
  | ok found =>
    have hreturned := hs.reach (hkeeps found.1 found.2 rfl)
    exact Leads.bind hm ((leads_move hreturned.sound).bind (leads_pure _ _))

/-- A procedure that is called within the limit, behind those at work, does what its reader does, if
as many places are left as there are calls of a higher rank. -/
theorem follows_call {n : Nat} {p : Procedure} (hlevels : d + levels = maxNesting)
    (hbefore : Precede active (Activation.rank ⟨p, d⟩))
    (hn : places < n + Activation.rank ⟨p, d⟩) :
    Follows text d active (call text n p : Steps (p.Yield α)) (p.read levels) := by
  induction n generalizing p d levels active with
  | zero =>
    have := p.level_bounds
    simp only [places, Activation.rank] at hn
    omega
  | succ n ih =>
    intro s hs
    have hd : d ≤ maxNesting := by omega
    have hserves : Serves text (call (α := α) text n) d levels (⟨p, d⟩ :: active) p := by
      refine ⟨hlevels, fun q hq => ?_, fun k hk q => ?_⟩
      · have hrank : Activation.rank ⟨p, d⟩ < Activation.rank ⟨q, d⟩ :=
          Nat.add_lt_add_left hq _
        exact ih hlevels (hbefore.call hrank) (by omega)
      · have hrank : Activation.rank ⟨p, d⟩ < Activation.rank ⟨q, d + 1⟩ := by
          have := p.level_bounds
          have := q.level_bounds
          simp only [Activation.rank]
          omega
        exact ih (by omega) (hbefore.call hrank) (by omega)
    exact agrees_during hs hbefore hd (fun b t h => reaches_of_read h)
      (hserves.body s ⟨hs.lies, hs.depth_le, hs.stacked.call hbefore hd⟩)

/-- The end of the text is reached where nothing is left. -/
theorem position_lt_iff {s : State} (h : s.LiesIn text) (d : Nat) (active : List Activation) :
    (s.cursor d active).position < Utf8.length text ↔ s.rest ≠ [] := by
  obtain ⟨before, htext, hoffset⟩ := h
  have hlength : Utf8.length text = s.offset + Utf8.length s.rest := by
    rw [htext, Utf8.length_append, hoffset]
  have hle := length_le_utf8Length s.rest
  rw [State.cursor, hlength, ← List.length_pos_iff]
  constructor
  · intro hlt
    by_contra hnone
    rw [List.length_pos_iff, not_not] at hnone
    rw [hnone] at hlt
    exact Nat.lt_irrefl _ hlt
  · intro hpos
    dsimp only
    omega

/-- The steps over a whole text come to the result of `Expr.parse`, by sound cursors only. -/
theorem parse_agrees (text : List Char) :
    ∃ t : State, Agrees text 0 [] (Steps.parse text : Steps (Expr α)) ⟨0, 0, 0, []⟩
      ((Expr.parse text).map fun e => (e, t)) := by
  have hstart : (State.start text).Stands text 0 [] :=
    ⟨⟨[], rfl, rfl⟩, Nat.zero_le _, .nil, fun _ h => by cases h⟩
  have hs := hstart.skipBlanks
  have hblanks := leads_skipBlanks hstart
  have hpeek := leads_peek hs
  have hcall : Follows text 0 [] (call text places .disjunction : Steps (Expr α))
      (Procedure.disjunction.read maxNesting) :=
    follows_call (Nat.zero_add _) (fun _ h => by cases h) (by decide)
  simp only [Expr.parse]
  split
  · rename_i hempty
    rw [hempty] at hpeek
    exact ⟨State.start text, hblanks.agrees (hpeek.agrees (refuses_refuse _ _ _ _))⟩
  · rename_i hrest
    have hnext : ¬ (State.start text).skipBlanks.rest.head? = none := by
      rwa [List.head?_eq_none_iff]
    split
    · rename_i hrun
      refine ⟨State.start text, hblanks.agrees (hpeek.agrees ?_)⟩
      rw [if_neg hnext]
      exact (hcall.refuses hs hrun).bind
    · rename_i e s₁ hrun
      have h₁ := hs.reach ((keepsPlace_expression maxNesting).reaches hrun)
      have hend := leads_skipBlanks h₁
      have hdone := position_lt_iff h₁.skipBlanks.lies 0 []
      refine ⟨s₁.skipBlanks, hblanks.agrees (hpeek.agrees ?_)⟩
      rw [if_neg hnext]
      refine (hcall.leads hs hrun).agrees (hend.agrees ((leads_cursor _).agrees ?_))
      by_cases hempty : s₁.skipBlanks.rest = []
      · rw [if_pos hempty, if_neg (mt hdone.1 (not_not_intro hempty))]
        exact leads_pure _ _
      · rw [if_neg hempty, if_pos (hdone.2 hempty)]
        exact (leads_remaining h₁.skipBlanks).agrees (refuses_refuse _ _ _ _)

/-- The run over a text ends as `Expr.parse` says. -/
theorem outcome_eq (text : List Char) :
    outcome text = (Expr.parse text : Except ParseError (Expr α)).mapError .refused ∧
      ∀ c ∈ cursors α text, c.Sound text := by
  obtain ⟨t, hagrees⟩ := parse_agrees (α := α) text
  have hsound : Trail.Sound text ⟨⟨0, 0, 0, []⟩, []⟩ := by
    intro c hc
    rw [List.mem_singleton.1 hc]
    exact ⟨⟨[], text, rfl, rfl⟩, Nat.zero_le _, .nil, fun _ h => by cases h⟩
  rw [outcome, cursors, runOn]
  cases hparse : (Expr.parse text : Except ParseError (Expr α)) with
  | ok e =>
    rw [hparse] at hagrees
    obtain ⟨trail, hrun, -, hcursors⟩ := hagrees _ rfl hsound
    rw [hrun]
    exact ⟨rfl, hcursors⟩
  | error err =>
    rw [hparse] at hagrees
    obtain ⟨trail, hrun, hcursors⟩ := hagrees _ rfl hsound
    rw [hrun]
    exact ⟨rfl, hcursors⟩

/-! ### Boundaries of characters -/

/-- The bytes of a text are counted alike. -/
theorem utf8Length_eq_utf8ByteSize (cs : List Char) :
    Utf8.length cs = (String.ofList cs).utf8ByteSize := by
  rw [String.utf8ByteSize_ofList]
  induction cs with
  | nil => rfl
  | cons c cs ih => rw [Utf8.length, ih, String.utf8Len_cons, Nat.add_comm]

/-- A text can be cut where its bytes up to there, and those behind, are texts themselves. -/
theorem isValid_of_cuts {text : String} {n : Nat} (h : Utf8.Cuts n text.toList) :
    n ≤ text.utf8ByteSize ∧ String.Pos.Raw.IsValid text ⟨n⟩ := by
  obtain ⟨before, after, htext, rfl⟩ := h
  have happend : text = String.ofList before ++ String.ofList after := by
    rw [← String.ofList_append, ← htext, String.ofList_toList]
  have hvalid : String.Pos.Raw.IsValid text ⟨Utf8.length before⟩ := by
    rw [String.Pos.Raw.isValid_iff_exists_append]
    refine ⟨String.ofList before, String.ofList after, happend, ?_⟩
    rw [utf8Length_eq_utf8ByteSize, ← String.byteIdx_rawEndPos]
  exact ⟨hvalid.le_rawEndPos, hvalid⟩

namespace Expr

/-- A text is parsed by position as `Expr.parse` parses it: no cut is made at a position where the
text cannot be cut, and no level is left that was not entered. Every position that the run comes to
is a boundary between characters of the text, and so is the position of every error. -/
theorem offsets_valid (text : String) :
    outcome text.toList = (ofString text : Except ParseError (Expr α)).mapError .refused ∧
      (∀ c ∈ cursors α text.toList,
        c.position ≤ text.utf8ByteSize ∧ String.Pos.Raw.IsValid text ⟨c.position⟩) ∧
      ∀ err, (ofString text : Except ParseError (Expr α)) = .error err →
        err.position ≤ text.utf8ByteSize ∧ String.Pos.Raw.IsValid text ⟨err.position⟩ := by
  obtain ⟨houtcome, hcursors⟩ := outcome_eq (α := α) text.toList
  refine ⟨houtcome, fun c hc => isValid_of_cuts (hcursors c hc).cuts, fun err herr => ?_⟩
  obtain ⟨before, after, htext, hposition, -, -⟩ := exists_place_of_parse herr
  exact isValid_of_cuts ⟨before, after, htext, hposition⟩

/-- Behind a blank of three bytes the run goes on at the eighth byte, and the error is at the
tenth. -/
theorem offsets_valid_wide_blank :
    (∃ c ∈ cursors Float "close\u3000> @".toList, c.position = 8 ∧
      String.Pos.Raw.IsValid "close\u3000> @" ⟨8⟩) ∧
    ∃ err, (ofString "close\u3000> @" : Except ParseError (Expr Float)) = .error err ∧
      err.position = 10 ∧ String.Pos.Raw.IsValid "close\u3000> @" ⟨10⟩ := by
  obtain ⟨-, hcursors, herrors⟩ := offsets_valid (α := Float) "close\u3000> @"
  have herror : (ofString "close\u3000> @" : Except ParseError (Expr Float)) =
      .error ⟨.expectedOperand (.text ['@']), 10⟩ := by
    unfold ofString
    decide +kernel
  have hreached : (cursors Float "close\u3000> @".toList).any (·.position == 8) = true := by
    decide +kernel
  obtain ⟨c, hc, hposition⟩ := List.any_eq_true.1 hreached
  have hvalid := (hcursors c hc).2
  rw [beq_iff_eq.1 hposition] at hvalid
  exact ⟨⟨c, hc, beq_iff_eq.1 hposition, hvalid⟩, _, herror, rfl, (herrors _ herror).2⟩

end Expr

end TradeRules
