import TradeRules.Proofs.Expr.Grammar

/-!
# What a phrase starts with, and what may follow it

A reader decides by what comes next. `pull` says how strongly the next token would hold on to an
operand before it, so that a phrase of level `p` ends exactly where the pull is below `p`.
A phrase starts with a parenthesis, a letter or underscore, or a character of numbers; if it binds
as strongly as a comparison it does not start with an operator word either. The parenthesis that it
starts with is around the whole of it or around what its first operands start with.
-/

namespace TradeRules

open Text Number

namespace Grammar

/-- The pull of a mark. -/
def markPull : Char → Nat
  | '(' => 7
  | '*' | '/' => 6
  | '+' | '-' => 5
  | '<' | '>' | '=' | '!' => 4
  | _ => 0

/-- The pull of a word. -/
def wordPull (w : List Char) : Nat :=
  if w = "AND".toList then 2 else if w = "OR".toList then 1 else 0

/-- How strongly what comes next would hold on to an operand before it; zero where the expression
cannot go on. -/
def pull (r : List Char) : Nat :=
  match trimStart r with
  | [] => 0
  | c :: cs => if isNameChar c then wordPull ((c :: cs).takeWhile isNameChar) else markPull c

/-- Leading blanks make no difference to the pull. -/
theorem pull_of_trimStart {r r' : List Char} (h : trimStart r = trimStart r') :
    pull r = pull r' := by
  rw [pull, pull, h]

/-- The end of a text has no pull. -/
theorem pull_of_isBlank {r : List Char} (h : ∀ c ∈ r, isBlank c = true) : pull r = 0 := by
  rw [pull, (trimStart_eq_nil_iff r).2 h]

/-- The pull of a token is that of its mark. -/
theorem pull_of_token {c : Char} {w r r' : List Char} (hc : isNameChar c = false)
    (h : Token (c :: w) r r') : pull r = markPull c := by
  rw [pull, h]
  simp [hc]

/-- The pull of a word token is that of the word. -/
theorem pull_of_word {w r r' : List Char} (hne : w ≠ []) (hw : w.all isNameChar = true)
    (h : Word w r r') : pull r = wordPull w := by
  have htake := h.takeWhile hw
  have hstart := h.1
  rw [pull]
  cases w with
  | nil => exact absurd rfl hne
  | cons c cs =>
    have hc : isNameChar c = true := List.all_eq_true.1 hw c List.mem_cons_self
    rw [Token, List.cons_append] at hstart
    rw [hstart] at htake ⊢
    simp only [hc, if_true, htake]

/-- An operator pulls as strongly as it binds. -/
theorem pull_of_operator {op : BinaryOp} {r r' : List Char} (h : Operator op r r') :
    pull r = op.binding := by
  cases op with
  | or => exact pull_of_word (by decide) (by decide) h
  | and => exact pull_of_word (by decide) (by decide) h
  | compare c => cases c <;> exact pull_of_token (by decide) h
  | compute a => cases a <;> exact pull_of_token (by decide) h

/-- Whether a character may be the first of a phrase. -/
def mayStartPhrase (c : Char) : Bool := c == '(' || isNameStart c || mayStartNumber c

/-- No phrase starts with a blank. -/
theorem isBlank_of_mayStartPhrase {c : Char} (h : mayStartPhrase c = true) : isBlank c = false := by
  have hbounds : 0x20 < c.toNat ∧ c.toNat < 0x80 := by
    simp only [mayStartPhrase, Bool.or_eq_true, beq_iff_eq] at h
    rcases h with (rfl | h) | h
    · decide
    · have := toNat_of_isNameStart h
      omega
    · have := toNat_of_mayStartNumber h
      omega
  rw [Bool.eq_false_iff]
  intro hc
  simp only [isBlank, Bool.or_eq_true, Bool.and_eq_true, decide_eq_true_eq, beq_iff_eq] at hc
  omega

/-- A decimal with its sign starts with a character of numbers. -/
theorem start_signed {sign : List Char} {negative : Bool} {d : LeadingDecimal}
    (hsign : SignText sign negative) (hlongest : d.IsLongest) (hdigit : d.hasDigit = true) :
    ∃ c cs, sign ++ d.text = c :: cs ∧ mayStartNumber c = true := by
  obtain ⟨c, cs, htext, hc⟩ := LeadingDecimal.head?_text hlongest hdigit
  rw [htext]
  cases hsign with
  | minus => exact ⟨'-', _, rfl, rfl⟩
  | plus => exact ⟨'+', _, rfl, rfl⟩
  | none => exact ⟨c, _, rfl, by simp [mayStartNumber, hc]⟩

/-- A number starts with a character of numbers. -/
theorem NumberToken.start {α : Type} [Scalar α] {s r : List Char} {x : α}
    (h : NumberToken s x r) : ∃ c cs, trimStart s = c :: cs ∧ mayStartNumber c = true := by
  obtain ⟨sign, negative, hsign, d, hlongest, hdigit, rfl, htoken, rfl, hfinite⟩ := h
  obtain ⟨c, cs, htext, hc⟩ := start_signed hsign hlongest hdigit
  rw [Token, htext] at htoken
  exact ⟨c, _, htoken, hc⟩

/-- A name starts like one. -/
theorem IsName.start {n s r : List Char} (h : IsName n) (hword : Word n s r) :
    ∃ c cs, trimStart s = c :: cs ∧ isNameStart c = true := by
  cases n with
  | nil => exact absurd rfl h.ne_nil
  | cons c cs => exact ⟨c, cs ++ r, hword.1, by simpa using h.1⟩

/-- A text that starts with another character starts with no parenthesis. -/
theorem not_opening {c : Char} {s s₁ : List Char} (hstart : ∃ cs, trimStart s = c :: cs) (hc : c ≠ '(') :
    ¬Token ['('] s s₁ := by
  obtain ⟨cs, hs⟩ := hstart
  intro hopening
  rw [Token, hs] at hopening
  cases hopening
  exact hc rfl

/-- A word is no parenthesis. -/
theorem Word.not_opening {n s s₁ r : List Char} (hn : n.head?.any isNameStart = true)
    (h : Word n s r) : ¬Token ['('] s s₁ := by
  cases n with
  | nil => cases hn
  | cons c cs =>
    refine Grammar.not_opening ⟨cs ++ r, h.1⟩ ?_
    rintro rfl
    cases hn

/-- A number is no parenthesis. -/
theorem NumberToken.not_opening {α : Type} [Scalar α] {s s₁ r : List Char} {x : α}
    (h : NumberToken s x r) : ¬Token ['('] s s₁ := by
  obtain ⟨c, cs, hs, hc⟩ := h.start
  refine Grammar.not_opening ⟨cs, hs⟩ ?_
  rintro rfl
  cases hc

/-- A phrase has a first character, which no closing mark or comparison shares. -/
theorem Phrase.start {α : Type} [Scalar α] {p d : Nat} {s r : List Char} {e : Expr α} :
    Phrase p d s e r → ∃ c cs, trimStart s = c :: cs ∧ mayStartPhrase c = true
  | .tighter inner => inner.start
  | .row _ left _ _ => left.start
  | .comparison left _ _ => left.start
  | .negation keyword _ => ⟨'N', _, keyword.1, by decide⟩
  | .group opening _ _ => ⟨'(', _, opening, by decide⟩
  | .literal number => by
    obtain ⟨c, cs, hs, hc⟩ := number.start
    exact ⟨c, cs, hs, by simp [mayStartPhrase, hc]⟩
  | .name valid word => by
    obtain ⟨c, cs, hs, hc⟩ := valid.start word
    exact ⟨c, cs, hs, by simp [mayStartPhrase, hc]⟩
  | .call valid word _ => by
    obtain ⟨c, cs, hs, hc⟩ := valid.start word
    exact ⟨c, cs, hs, by simp [mayStartPhrase, hc]⟩

/-- A phrase that starts with a parenthesis starts with a tree in parentheses, no larger than its
own. -/
theorem Phrase.exists_inGroup {α : Type} [Scalar α] {p d : Nat} {s s₁ r : List Char}
    {e : Expr α} (hopening : Token ['('] s s₁) :
    Phrase p d s e r → ∃ n m s₂, m.operators ≤ e.operators ∧ InGroup n s (m : Expr α) s₂
  | .tighter inner => inner.exists_inGroup hopening
  | .row _ left _ _ => by
    obtain ⟨n, m, s₂, hm, hgroup⟩ := left.exists_inGroup hopening
    exact ⟨n, m, s₂, hm.trans (Expr.operators_left_lt ..).le, hgroup⟩
  | .comparison left _ _ => by
    obtain ⟨n, m, s₂, hm, hgroup⟩ := left.exists_inGroup hopening
    exact ⟨n, m, s₂, hm.trans (Expr.operators_left_lt ..).le, hgroup⟩
  | .negation keyword _ => absurd hopening (keyword.not_opening (by decide))
  | .group opening inner closing =>
    ⟨_, _, _, Nat.le_refl _, _, _, _, rfl, opening, inner, closing⟩
  | .literal number => absurd hopening number.not_opening
  | .name valid word => absurd hopening (word.not_opening valid.1)
  | .call valid word _ => absurd hopening (word.not_opening valid.1)

/-- No phrase starts with an equals sign, so that none makes a comparison longer. -/
theorem Phrase.head?_ne_equals {α : Type} [Scalar α] {p d : Nat} {s r : List Char} {e : Expr α}
    (h : Phrase p d s e r) : s.head? ≠ some '=' := by
  intro hs
  obtain ⟨c, cs, hstart, hc⟩ := h.start
  have hkeep : trimStart s = s := trimStart_of_head (by rw [hs]; decide)
  rw [hkeep] at hstart
  rw [hstart] at hs
  cases hs
  exact absurd hc (by decide)

/-- Operator words start with letters, which no number does. -/
theorem takeWhile_notMem_keywords {c : Char} {cs : List Char} (hc : isNameStart c = false) :
    (c :: cs).takeWhile isNameChar ∉ keywords := by
  intro h
  have hhead := List.head?_takeWhile (p := isNameChar) (l := c :: cs)
  simp only [keywords, List.mem_cons, List.not_mem_nil, or_false] at h
  have hkeep : ∀ {d : Char}, (some c).filter isNameChar = some d → c = d := by
    intro d hd
    simpa using (Option.filter_eq_some_iff.1 hd).1
  rcases h with h | h | h
  · rw [h] at hhead
    rw [hkeep hhead.symm] at hc
    cases hc
  · rw [h] at hhead
    rw [hkeep hhead.symm] at hc
    cases hc
  · rw [h] at hhead
    rw [hkeep hhead.symm] at hc
    cases hc

/-- A phrase that binds as strongly as a comparison starts with no operator word. -/
theorem Phrase.takeWhile_notMem_keywords {α : Type} [Scalar α] {p d : Nat} {s r : List Char}
    {e : Expr α} (hp : 4 ≤ p) :
    Phrase p d s e r → (trimStart s).takeWhile isNameChar ∉ keywords
  | .tighter inner => inner.takeWhile_notMem_keywords (Nat.le_succ_of_le hp)
  | .row _ left _ _ => left.takeWhile_notMem_keywords hp
  | .comparison left _ _ => left.takeWhile_notMem_keywords (by decide)
  | .negation _ _ => absurd hp (by decide)
  | .group opening _ _ => by
    rw [opening]
    exact Grammar.takeWhile_notMem_keywords rfl
  | .literal number => by
    obtain ⟨c, cs, hs, hc⟩ := number.start
    rw [hs]
    refine Grammar.takeWhile_notMem_keywords ?_
    cases hn : isNameStart c with
    | false => rfl
    | true => rw [mayStartNumber_of_isNameStart hn] at hc; cases hc
  | .name valid word => by
    rw [word.takeWhile valid.2.1]
    exact valid.2.2
  | .call valid word _ => by
    rw [word.takeWhile valid.2.1]
    exact valid.2.2

end Grammar

open Grammar

namespace State

/-- Only a name or an operator word starts with the word of a keyword. -/
theorem keyword?_eq_none {w : List Char} {s : State}
    (h : (trimStart s.rest).takeWhile isNameChar ≠ w) : s.keyword? w = none := by
  simp only [keyword?]
  rw [if_neg]
  rintro ⟨-, hw⟩
  exact h (by simpa [word] using hw)

/-- Where the pull is below that of comparisons, none comes next, not even half of one. -/
theorem comparison?_eq_none {s : State} (h : pull s.rest < 4) : s.comparison? = .ok none := by
  have mark : ∀ {c : Char} {cs : List Char}, trimStart s.rest = c :: cs →
      isNameChar c = false → markPull c = 4 → False := by
    intro c cs hs hc hpull
    rw [pull_of_token (w := []) hc hs, hpull] at h
    exact Nat.lt_irrefl _ h
  simp only [comparison?, rest_skipBlanks]
  unfold leadingComparison
  split
  · rename_i heq
    split at heq
    case h_7 hs => exact (mark hs (by decide) rfl).elim
    case h_8 hs => exact (mark hs (by decide) rfl).elim
    all_goals cases heq
  · rfl
  · rename_i c heq
    split at heq
    case h_7 => cases heq
    case h_8 => cases heq
    case h_9 => cases heq
    all_goals exact (mark (by assumption) (by decide) rfl).elim

end State

/-- Where the pull is below that of a row's operators, the row ends. -/
theorem Chain.operator?_eq_none {k : Chain} {s : State} (h : pull s.rest < k.binding) :
    k.operator? s = none := by
  cases hop : k.operator? s with
  | none => rfl
  | some found =>
    obtain ⟨op, t⟩ := found
    obtain ⟨hoperator, hbinding, -, -⟩ := Chain.operator_of_operator? hop
    rw [pull_of_operator hoperator, hbinding] at h
    exact absurd h (Nat.lt_irrefl _)

end TradeRules
