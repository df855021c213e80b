import TradeRules.Expr.Parser
import TradeRules.Proofs.Number.LongestDecimal

/-!
# The tokens of rule expressions

A token is described by the text before it and the text after it. Any blanks may stand before a
token. Words and numbers are taken as long as they go, so what follows them is looked at as
well; the words of `keywords` are operators and never names. For each kind of token two lemmas
tie the description to the step of `State` that reads it: what is read is such a token, and such a
token is read.
-/

namespace TradeRules

open Text Number

namespace Grammar

/-- Past its leading blanks, the text `s` is `w` followed by `r`. -/
def Token (w s r : List Char) : Prop := trimStart s = w ++ r

/-- A word that ends before `r` could not be longer. -/
def EndsWord (r : List Char) : Prop := r.head?.any isNameChar = false

/-- A token that is a whole word. -/
def Word (w s r : List Char) : Prop := Token w s r ∧ EndsWord r

/-- A letter or underscore, then letters, digits and underscores, and no operator word. -/
def IsName (n : List Char) : Prop :=
  n.head?.any isNameStart = true ∧ n.all isNameChar = true ∧ n ∉ keywords

instance (n : List Char) : Decidable (IsName n) := inferInstanceAs (Decidable (_ ∧ _ ∧ _))

/-- A number: an optional sign directly before the longest decimal, which has a digit and a
finite value. -/
def NumberToken {α : Type} [Scalar α] (s : List Char) (x : α) (r : List Char) : Prop :=
  ∃ sign negative, SignText sign negative ∧ ∃ d : LeadingDecimal, d.IsLongest ∧
    d.hasDigit = true ∧ d.rest = r ∧ Token (sign ++ d.text) s r ∧
    Scalar.ofDecimal negative d.magnitude = x ∧ Scalar.isFinite x = true

/-- Whether a character may be the first of a number. -/
def mayStartNumber (c : Char) : Bool := c.isDigit || c == '.' || c == '-' || c == '+'

/-- An operator: `AND` and `OR` are whole words, the others are marks. -/
def Operator (op : BinaryOp) (s r : List Char) : Prop :=
  match op with
  | .or | .and => Word op.symbol.toList s r
  | .compare _ | .compute _ => Token op.symbol.toList s r

/-- Leading blanks make no difference to a token. -/
theorem token_iff_of_trimStart {w s s' r : List Char} (h : trimStart s = trimStart s') :
    Token w s r ↔ Token w s' r := by
  rw [Token, Token, h]

/-- Leading blanks make no difference to a word. -/
theorem Word.of_trimStart {w s s' r : List Char} (h : trimStart s = trimStart s')
    (hword : Word w s r) : Word w s' r :=
  ⟨(token_iff_of_trimStart h).1 hword.1, hword.2⟩

/-- Leading blanks make no difference to an operator. -/
theorem operator_iff_of_trimStart {op : BinaryOp} {s s' r : List Char}
    (h : trimStart s = trimStart s') : Operator op s r ↔ Operator op s' r := by
  cases op <;> simp only [Operator, Word, token_iff_of_trimStart h]

/-- Leading blanks make no difference to a number. -/
theorem numberToken_iff_of_trimStart {α : Type} [Scalar α] {s s' r : List Char} {x : α}
    (h : trimStart s = trimStart s') : NumberToken s x r ↔ NumberToken s' x r := by
  simp only [NumberToken, token_iff_of_trimStart h]

/-- What starts a name may stand in it. -/
theorem isNameChar_of_isNameStart {c : Char} (h : isNameStart c = true) : isNameChar c = true := by
  simp only [isNameStart, isNameChar, Char.isAlphanum, Bool.or_eq_true] at h ⊢
  rcases h with h | h <;> simp [h]

/-- The letters and the underscore come after the digits and marks of numbers. -/
theorem toNat_of_isNameStart {c : Char} (h : isNameStart c = true) :
    0x40 < c.toNat ∧ c.toNat < 0x80 := by
  simp only [isNameStart, Char.isAlpha, Char.isUpper, Char.isLower, Bool.or_eq_true,
    Bool.and_eq_true, decide_eq_true_eq, beq_iff_eq, UInt32.le_iff_toNat_le, ge_iff_le] at h
  rcases h with (h | h) | rfl
  · simp at h
    omega
  · simp at h
    omega
  · decide

/-- The digits and marks of numbers come after the blanks that texts are written with. -/
theorem toNat_of_mayStartNumber {c : Char} (h : mayStartNumber c = true) :
    0x20 < c.toNat ∧ c.toNat < 0x40 := by
  simp only [mayStartNumber, Bool.or_eq_true, beq_iff_eq] at h
  rcases h with ((h | rfl) | rfl) | rfl
  · obtain ⟨hlow, hhigh⟩ := Char.isDigit_iff_toNat.1 h
    have hzero : '0'.toNat = 0x30 := rfl
    have hnine : '9'.toNat = 0x39 := rfl
    omega
  all_goals decide

/-- Names and numbers start differently. -/
theorem mayStartNumber_of_isNameStart {c : Char} (h : isNameStart c = true) :
    mayStartNumber c = false := by
  rw [Bool.eq_false_iff]
  intro hc
  have hname := toNat_of_isNameStart h
  have hnumber := toNat_of_mayStartNumber hc
  omega

/-- A name is not empty. -/
theorem IsName.ne_nil {n : List Char} (h : IsName n) : n ≠ [] := by
  rintro rfl
  cases h.1

/-- The name characters at the front of a word token are that word. -/
theorem Word.takeWhile {w s r : List Char} (hw : w.all isNameChar = true) (h : Word w s r) :
    (trimStart s).takeWhile isNameChar = w := by
  rw [h.1]
  exact takeWhile_append_of_stop hw h.2

end Grammar

open Grammar

namespace State

@[simp] theorem rest_consume (n : Nat) (s : State) : (s.consume n).rest = s.rest.drop n := rfl

@[simp] theorem operators_consume (n : Nat) (s : State) :
    (s.consume n).operators = s.operators := rfl

@[simp] theorem rest_skipBlanks (s : State) : s.skipBlanks.rest = trimStart s.rest := by
  have hd : (s.rest.takeWhile isBlank ++ s.rest.dropWhile isBlank).drop
      (s.rest.takeWhile isBlank).length = s.rest.dropWhile isBlank := List.drop_left
  rw [List.takeWhile_append_dropWhile] at hd
  exact hd

@[simp] theorem operators_skipBlanks (s : State) : s.skipBlanks.operators = s.operators := rfl

/-- Consuming as many characters as a token has leaves what follows it. -/
theorem rest_consume_of_token {w r : List Char} {s : State} (h : Token w s.rest r) :
    (s.skipBlanks.consume w.length).rest = r := by
  rw [rest_consume, rest_skipBlanks, h, List.drop_left]

/-- A mark that comes next is a token. -/
theorem token_of_startsWith {c : Char} {s : State} (h : s.skipBlanks.startsWith c = true) :
    Token [c] s.rest (s.skipBlanks.consume 1).rest := by
  simp only [startsWith, rest_skipBlanks, beq_iff_eq] at h
  obtain ⟨cs, hcs⟩ := List.head?_eq_some_iff.1 h
  rw [Token, rest_consume, rest_skipBlanks, hcs]
  rfl

/-- A token that is a mark comes next. -/
theorem startsWith_of_token {c : Char} {r : List Char} {s : State} (h : Token [c] s.rest r) :
    s.skipBlanks.startsWith c = true := by
  simp only [startsWith, rest_skipBlanks]
  rw [h]
  simp

/-- Where one mark comes next, no other does. -/
theorem startsWith_eq_false_of_token {c d : Char} {r : List Char} {s : State}
    (h : Token [c] s.rest r) (hne : c ≠ d) : s.skipBlanks.startsWith d = false := by
  simp only [startsWith, rest_skipBlanks]
  rw [h]
  simpa using hne

/-- A mark that was expected is a token. -/
theorem token_of_expect {c : Char} {s t : State} (h : s.expect c = .ok t) :
    Token [c] s.rest t.rest ∧ t.operators = s.operators := by
  simp only [expect] at h
  split at h
  · rename_i hs
    cases h
    exact ⟨token_of_startsWith hs, rfl⟩
  · cases h

/-- A token that is a mark is read where it is expected. -/
theorem expect_of_token {c : Char} {r : List Char} {s : State} (h : Token [c] s.rest r) :
    ∃ t, s.expect c = .ok t ∧ t.rest = r ∧ t.operators = s.operators :=
  ⟨s.skipBlanks.consume 1, if_pos (startsWith_of_token h), rest_consume_of_token h, rfl⟩

/-- The name characters that come next are a whole word. -/
theorem word_word (s : State) :
    Word s.skipBlanks.word s.rest (s.skipBlanks.consume s.skipBlanks.word.length).rest := by
  have happ := List.takeWhile_append_dropWhile (p := isNameChar) (l := trimStart s.rest)
  have hword : s.skipBlanks.word = (trimStart s.rest).takeWhile isNameChar := by simp [word]
  have hrest : (s.skipBlanks.consume s.skipBlanks.word.length).rest =
      (trimStart s.rest).dropWhile isNameChar := by
    rw [hword]
    exact rest_consume_of_token happ.symm
  rw [Word, hrest, hword]
  exact ⟨happ.symm, any_head?_dropWhile _ _⟩

/-- A word that starts like a name and is no operator is a name. -/
theorem isName_word {s : State} (hstart : s.rest.head?.any isNameStart = true)
    (hkeyword : s.word ∉ keywords) : IsName s.word := by
  refine ⟨?_, List.all_takeWhile, hkeyword⟩
  cases hs : s.rest with
  | nil => simp [hs] at hstart
  | cons c cs =>
    have hc : isNameStart c = true := by simpa [hs] using hstart
    simp [word, hs, hc, isNameChar_of_isNameStart hc]

/-- A keyword that was read is a whole word. -/
theorem word_of_keyword? {w : List Char} {s t : State} (h : s.keyword? w = some t) :
    Word w s.rest t.rest ∧ t.operators = s.operators := by
  simp only [keyword?] at h
  split at h
  · rename_i hw
    cases h
    have hword := s.word_word
    rw [hw.2] at hword
    exact ⟨hword, rfl⟩
  · cases h

/-- A whole word is read as the keyword it is. -/
theorem keyword?_of_word {w r : List Char} {s : State} (hne : w ≠ [])
    (hw : w.all isNameChar = true) (h : Word w s.rest r) :
    ∃ t, s.keyword? w = some t ∧ t.rest = r ∧ t.operators = s.operators := by
  refine ⟨s.skipBlanks.consume w.length, if_pos ⟨hne, ?_⟩, rest_consume_of_token h.1, rfl⟩
  rw [word, rest_skipBlanks]
  exact h.takeWhile hw

/-- The mark of a comparison that was found stands at the front. -/
theorem eq_symbol_append_of_leadingComparison {cs : List Char} {c : Comparison}
    (h : leadingComparison cs = .ok (some c)) :
    cs = c.symbol.toList ++ cs.drop c.symbol.length := by
  unfold leadingComparison at h
  split at h <;> cases h <;> rfl

/-- A comparison at the front is found, unless an equals sign makes it a longer one. -/
theorem leadingComparison_symbol_append (c : Comparison) {r : List Char}
    (hr : r.head? ≠ some '=') : leadingComparison (c.symbol.toList ++ r) = .ok (some c) := by
  cases c with
  | le | ge | eq | ne => rfl
  | lt | gt =>
    cases r with
    | nil => rfl
    | cons d r =>
      have hd : d ≠ '=' := fun h => hr (by rw [h]; rfl)
      simp only [Comparison.symbol]
      unfold leadingComparison
      split <;> simp_all

/-- A comparison that was read is an operator. -/
theorem operator_of_comparison? {c : Comparison} {s t : State}
    (h : s.comparison? = .ok (some (c, t))) :
    Operator (.compare c) s.rest t.rest ∧ t.operators = s.operators := by
  simp only [comparison?] at h
  split at h
  · cases h
  · cases h
  · rename_i c' hc
    cases h
    rw [rest_skipBlanks] at hc
    refine ⟨?_, rfl⟩
    rw [rest_consume, rest_skipBlanks]
    exact eq_symbol_append_of_leadingComparison hc

/-- A comparison is read, unless an equals sign makes it a longer one. -/
theorem comparison?_of_operator {c : Comparison} {r : List Char} {s : State}
    (hr : r.head? ≠ some '=') (h : Operator (.compare c) s.rest r) :
    ∃ t, s.comparison? = .ok (some (c, t)) ∧ t.rest = r ∧ t.operators = s.operators := by
  have htoken : Token c.symbol.toList s.rest r := h
  refine ⟨s.skipBlanks.consume c.symbol.length, ?_, rest_consume_of_token htoken, rfl⟩
  simp only [comparison?, rest_skipBlanks]
  rw [htoken, leadingComparison_symbol_append c hr]

variable {α : Type} [Scalar α]

/-- A number that was read is a number token. -/
theorem numberToken_of_number {x : α} {s t : State} (h : s.skipBlanks.number = .ok (x, t)) :
    NumberToken s.rest x t.rest ∧ t.operators = s.operators := by
  obtain ⟨sign, hsign, hlength, happ⟩ := signText_splitSign (trimStart s.rest)
  have hdecimal := LeadingDecimal.text_append_rest_read (splitSign (trimStart s.rest)).2
  have hlongest := LeadingDecimal.isLongest_read (splitSign (trimStart s.rest)).2
  simp only [number, rest_skipBlanks] at h
  generalize LeadingDecimal.read (splitSign (trimStart s.rest)).2 = d at h hdecimal hlongest
  have htoken : Token (sign ++ d.text) s.rest d.rest := by
    rw [Token, List.append_assoc, hdecimal, happ]
  have hrest : (s.skipBlanks.consume (signLength (trimStart s.rest) + d.size)).rest = d.rest := by
    rw [← hlength, ← d.length_text, ← List.length_append]
    exact rest_consume_of_token htoken
  split at h
  · rename_i hdigit
    split at h
    · rename_i hfinite
      cases h
      rw [hrest]
      exact ⟨⟨sign, _, hsign, d, hlongest, hdigit, rfl, htoken, rfl, hfinite⟩, rfl⟩
    · cases h
  · cases h

/-- A number token is read as that number. -/
theorem number_of_numberToken {x : α} {r : List Char} {s : State} (h : NumberToken s.rest x r) :
    ∃ t, s.skipBlanks.number = .ok (x, t) ∧ t.rest = r ∧ t.operators = s.operators := by
  obtain ⟨sign, negative, hsign, d, hlongest, hdigit, rfl, htoken, rfl, hfinite⟩ := h
  obtain ⟨c, cs, htext, hc⟩ := LeadingDecimal.head?_text hlongest hdigit
  have hminus : (d.text ++ d.rest).head? ≠ some '-' := by
    rw [htext]
    rintro ⟨⟩
    cases hc
  have hplus : (d.text ++ d.rest).head? ≠ some '+' := by
    rw [htext]
    rintro ⟨⟩
    cases hc
  have hsplit := splitSign_append hsign hminus hplus
  have hread : LeadingDecimal.read (d.text ++ d.rest) = d :=
    LeadingDecimal.read_of_isLongest hlongest
  have hfront : trimStart s.rest = sign ++ (d.text ++ d.rest) := by
    rw [← List.append_assoc]
    exact htoken
  refine ⟨s.skipBlanks.consume (sign.length + d.size), ?_, ?_, rfl⟩
  · simp only [number, rest_skipBlanks]
    rw [hfront, hsplit.1, hsplit.2]
    dsimp only
    rw [hread, if_pos hdigit, if_pos hfinite]
  · rw [← d.length_text, ← List.length_append]
    exact rest_consume_of_token htoken

/-- A number token shows at its first two characters. -/
theorem startsNumber_of_numberToken {x : α} {r : List Char} {s : State}
    (h : NumberToken s.rest x r) : s.skipBlanks.startsNumber = true := by
  obtain ⟨sign, negative, hsign, d, hlongest, hdigit, rfl, htoken, rfl, hfinite⟩ := h
  obtain ⟨c, cs, htext, hc⟩ := LeadingDecimal.head?_text hlongest hdigit
  have hnumeric : startsNumber.isNumeric c = true := hc
  rw [startsNumber, rest_skipBlanks, htoken, htext]
  cases hsign with
  | minus | plus => simp [hnumeric]
  | none =>
    cases hcs : cs ++ d.rest with
    | nil => simp [hcs, hnumeric]
    | cons e es => simp [hcs, hnumeric]

/-- A text that starts with none of the characters of numbers starts with no number. -/
theorem startsNumber_eq_false {c : Char} {cs : List Char} {s : State} (h : s.rest = c :: cs)
    (hc : mayStartNumber c = false) : s.startsNumber = false := by
  simp only [mayStartNumber, Bool.or_eq_false_iff] at hc
  obtain ⟨⟨⟨hdigit, hpoint⟩, hminus⟩, hplus⟩ := hc
  rw [startsNumber, h]
  cases cs <;> simp [startsNumber.isNumeric, hdigit, hpoint, hminus, hplus]

end State

/-- The strength with which the operators of a row bind. -/
def Chain.binding : Chain → Nat
  | .disjunction => 1
  | .conjunction => 2
  | .sum => 5
  | .product => 6

/-- What a row reads between two operands is an operator of its strength. -/
theorem Chain.operator_of_operator? {k : Chain} {op : BinaryOp} {s t : State}
    (h : k.operator? s = some (op, t)) :
    Operator op s.rest t.rest ∧ op.binding = k.binding ∧ op.isComparison = false ∧
      t.operators = s.operators := by
  cases k with
  | disjunction | conjunction =>
    simp only [operator?, Option.map_eq_some_iff] at h
    obtain ⟨u, hu, he⟩ := h
    cases he
    obtain ⟨hword, hops⟩ := State.word_of_keyword? hu
    exact ⟨hword, rfl, rfl, hops⟩
  | sum | product =>
    simp only [operator?] at h
    split at h
    · rename_i hc
      cases h
      exact ⟨State.token_of_startsWith hc, rfl, rfl, rfl⟩
    · split at h
      · rename_i hc
        cases h
        exact ⟨State.token_of_startsWith hc, rfl, rfl, rfl⟩
      · cases h

/-- An operator of a row's strength is what the row reads between two operands. -/
theorem Chain.operator?_of_operator {k : Chain} {op : BinaryOp} {s : State} {r : List Char}
    (hbinding : op.binding = k.binding) (hop : op.isComparison = false)
    (h : Operator op s.rest r) :
    ∃ t, k.operator? s = some (op, t) ∧ t.rest = r ∧ t.operators = s.operators := by
  have keyword : ∀ {w : List Char}, w ≠ [] → w.all isNameChar = true → Word w s.rest r →
      ∃ t, (s.keyword? w).map (op, ·) = some (op, t) ∧ t.rest = r ∧ t.operators = s.operators := by
    intro w hne hw hword
    obtain ⟨t, ht, hrest, hops⟩ := State.keyword?_of_word hne hw hword
    exact ⟨t, by rw [ht]; rfl, hrest, hops⟩
  cases op with
  | compare c => cases hop
  | or =>
    cases k <;> cases hbinding
    exact keyword (by decide) (by decide) h
  | and =>
    cases k <;> cases hbinding
    exact keyword (by decide) (by decide) h
  | compute a =>
    have htoken : Token a.symbol.toList s.rest r := h
    cases a with
    | add | mul =>
      cases k <;> cases hbinding
      exact ⟨s.skipBlanks.consume 1, if_pos (State.startsWith_of_token htoken),
        State.rest_consume_of_token htoken, rfl⟩
    | sub =>
      cases k <;> cases hbinding
      have hplus := State.startsWith_eq_false_of_token htoken (show '-' ≠ '+' by decide)
      have hminus : s.skipBlanks.startsWith '-' = true := State.startsWith_of_token htoken
      refine ⟨s.skipBlanks.consume 1, ?_, State.rest_consume_of_token htoken, rfl⟩
      simp [Chain.operator?, hplus, hminus]
    | div =>
      cases k <;> cases hbinding
      have htimes := State.startsWith_eq_false_of_token htoken (show '/' ≠ '*' by decide)
      have hslash : s.skipBlanks.startsWith '/' = true := State.startsWith_of_token htoken
      refine ⟨s.skipBlanks.consume 1, ?_, State.rest_consume_of_token htoken, rfl⟩
      simp [Chain.operator?, htimes, hslash]

end TradeRules
