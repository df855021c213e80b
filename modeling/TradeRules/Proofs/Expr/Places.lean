import TradeRules.Proofs.Expr.Soundness

/-!
# Where a reader gets to

A reader moves on past characters that it understands: those of one byte, and blanks. It counts
their bytes (`State.Reaches`). Whether a reading succeeds or not, it stays on that way: what is left
was reached, and an error is noticed at a place that was reached and quotes what stands there
(`State.Keeps`). Each reader keeps to it if the readers do that it is made of, so that every error
of `Expr.parse` has a place in the text (`Expr.exists_place_of_parse`).
-/

namespace TradeRules

open Text Number Grammar

/-- What a message quotes of that which was found. -/
def Found.quoted : Found → List Char
  | .text word => word
  | .endOfInput => []

/-- What the wording of a fault quotes of the text. -/
def ParseFault.quoted : ParseFault → List Char
  | .trailingInput rest => rest
  | .expectedOperand found | .expectedMark _ found => found.quoted
  | .keywordAsOperand word => word
  | .numberOutOfRange text => text
  | .emptyExpression | .expectedNumber | .singleEquals | .loneBang | .chainedComparison
  | .tooDeep | .tooManyOperators => []

/-- A fault can be noticed where the text goes on in a given way. -/
structure ParseFault.Fits (fault : ParseFault) (rest : List Char) : Prop where
  /-- What it quotes is how the text goes on. -/
  quoted : fault.quoted <+: rest
  /-- A mark that it misses is no blank. -/
  missed : ∀ mark found, fault = .expectedMark mark found → isBlank mark = false

/-- Whether a fault is that a mark is missed. -/
def ParseFault.missesMark : ParseFault → Bool
  | .expectedMark _ _ => true
  | _ => false

/-- A fault other than a missed mark fits wherever the text goes on as it quotes. -/
theorem ParseFault.Fits.of_quoted {fault : ParseFault} {rest : List Char}
    (h : fault.quoted <+: rest) (hmark : fault.missesMark = false) : fault.Fits rest := by
  refine ⟨h, ?_⟩
  rintro mark found rfl
  cases hmark

/-- A sign may be the first character of a number. -/
theorem Number.SignText.mayStartNumber_of_mem {sign : List Char} {negative : Bool}
    (h : SignText sign negative) {c : Char} (hc : c ∈ sign) : mayStartNumber c = true := by
  cases h with
  | none => cases hc
  | minus | plus =>
    rw [List.mem_singleton.1 hc]
    rfl

/-- All characters of a decimal are such that it could start with them. -/
theorem Number.LeadingDecimal.IsLongest.mayStartNumber_of_mem {d : LeadingDecimal} (h : d.IsLongest)
    {c : Char} (hc : c ∈ d.text) : mayStartNumber c = true := by
  obtain ⟨whole, fraction, rest⟩ := d
  have hdigit : c.isDigit = true → mayStartNumber c = true := fun hc => by
    rw [mayStartNumber, hc]
    rfl
  rcases List.mem_append.1 hc with hc | hc
  · exact hdigit (List.all_eq_true.1 h.whole_digits c hc)
  · cases fraction with
    | none => cases hc
    | some digits =>
      rcases List.mem_cons.1 hc with rfl | hc
      · rfl
      · exact hdigit (List.all_eq_true.1 h.places_digits c hc)

/-- The characters of numbers take one byte. -/
theorem utf8Size_of_mayStartNumber {c : Char} (h : mayStartNumber c = true) : c.utf8Size = 1 := by
  have hc := (toNat_of_mayStartNumber h).2
  rw [Char.utf8Size_eq_one_iff, UInt32.le_iff_toNat_le]
  exact Nat.le_of_lt (Nat.lt_trans hc (by decide))

/-- The characters of names take one byte. -/
theorem utf8Size_of_isNameChar {c : Char} (h : isNameChar c = true) : c.utf8Size = 1 := by
  simp only [isNameChar, Char.isAlphanum, Bool.or_eq_true] at h
  by_cases hc : isNameStart c = true
  · rw [Char.utf8Size_eq_one_iff, UInt32.le_iff_toNat_le]
    exact Nat.le_of_lt_succ (toNat_of_isNameStart hc).2
  · simp only [isNameStart, Bool.or_eq_true] at hc
    exact utf8Size_of_mayStartNumber (by simp [mayStartNumber]; tauto)

namespace State

variable {s t u : State}

/-- Reading on from `s` comes to `t`: past characters of one byte and blanks, whose bytes are
counted. -/
def Reaches (s t : State) : Prop :=
  ∃ past, s.rest = past ++ t.rest ∧ t.offset = s.offset + Utf8.length past ∧
    ∀ c ∈ past, c.utf8Size = 1 ∨ isBlank c = true

/-- An error was noticed at a place that is reached from `s`, and its fault fits there. -/
def Notices (s : State) (err : ParseError) : Prop :=
  ∃ t fault, s.Reaches t ∧ err = t.fail fault ∧ fault.Fits t.rest

/-- A result keeps to the way from `s`: what is left was reached, or the error was noticed on it. -/
def Keeps {β : Type} (s : State) : Except ParseError (β × State) → Prop
  | .ok (_, t) => s.Reaches t
  | .error err => s.Notices err

/-- Who does not move is already there. -/
theorem Reaches.refl (s : State) : s.Reaches s := ⟨[], rfl, rfl, fun _ h => by cases h⟩

/-- The way goes on. -/
theorem Reaches.trans (h : s.Reaches t) (h' : t.Reaches u) : s.Reaches u := by
  obtain ⟨past, hrest, hoffset, hpast⟩ := h
  obtain ⟨past', hrest', hoffset', hpast'⟩ := h'
  refine ⟨past ++ past', ?_, ?_, ?_⟩
  · rw [hrest, hrest', List.append_assoc]
  · rw [hoffset', hoffset, Utf8.length_append, Nat.add_assoc]
  · intro c hc
    exact (List.mem_append.1 hc).elim (hpast c) (hpast' c)

/-- An error further on is an error on the way. -/
theorem Reaches.notices {err : ParseError} (h : s.Reaches t) (h' : t.Notices err) :
    s.Notices err := by
  obtain ⟨u, fault, hu, herr, hfits⟩ := h'
  exact ⟨u, fault, h.trans hu, herr, hfits⟩

/-- What keeps to the way from further on keeps to the whole way. -/
theorem Reaches.keeps {β : Type} {result : Except ParseError (β × State)} (h : s.Reaches t)
    (h' : t.Keeps result) : s.Keeps result := by
  cases result with
  | error err => exact h.notices h'
  | ok found => exact h.trans h'

/-- A fault that is noticed at once. -/
theorem notices_fail {fault : ParseFault} (h : fault.Fits s.rest) :
    s.Notices (s.fail fault) :=
  ⟨s, fault, .refl s, rfl, h⟩

/-- Characters that may be passed are passed. -/
theorem reaches_consume {n : Nat}
    (h : ∀ c ∈ s.rest.take n, c.utf8Size = 1 ∨ isBlank c = true) : s.Reaches (s.consume n) :=
  ⟨s.rest.take n, (List.take_append_drop n s.rest).symm, rfl, h⟩

/-- A token of one-byte characters is passed. -/
theorem reaches_consume_of_front {w : List Char} (hpast : w <+: s.rest)
    (hw : ∀ c ∈ w, c.utf8Size = 1) : s.Reaches (s.consume w.length) := by
  refine reaches_consume fun c hc => .inl (hw c ?_)
  rwa [← List.prefix_iff_eq_take.1 hpast] at hc

/-- Blanks are passed. -/
theorem reaches_skipBlanks (s : State) : s.Reaches s.skipBlanks := by
  refine reaches_consume fun c hc => .inr ?_
  rw [← List.prefix_iff_eq_take.1 (List.takeWhile_prefix isBlank)] at hc
  exact List.mem_takeWhile_imp hc

/-- A mark of one byte is passed. -/
theorem reaches_consume_one {mark : Char} (hmark : mark.utf8Size = 1)
    (h : s.startsWith mark = true) : s.Reaches (s.consume 1) := by
  obtain ⟨cs, hcs⟩ := List.head?_eq_some_iff.1 (by simpa [startsWith] using h)
  refine reaches_consume_of_front (w := [mark]) ⟨cs, hcs.symm⟩ ?_
  intro c hc
  rw [List.mem_singleton.1 hc, hmark]

/-- The word that comes next is passed. -/
theorem reaches_consume_word (s : State) : s.Reaches (s.consume s.word.length) :=
  reaches_consume_of_front (List.takeWhile_prefix _) fun _ hc =>
    utf8Size_of_isNameChar (List.mem_takeWhile_imp hc)

/-- What a message says was found stands at the place. -/
theorem quoted_found (s : State) : s.found.quoted <+: s.rest := by
  unfold found
  split
  · exact List.nil_prefix
  · rename_i c cs hs
    rw [Found.quoted]
    split
    · rw [hs]
      exact ⟨cs, rfl⟩
    · exact List.takeWhile_prefix _

/-- Counting an operator moves nothing. -/
theorem reaches_of_addOperator (h : s.addOperator = .ok t) : s.Reaches t := by
  simp only [addOperator] at h
  split at h <;> cases h
  exact ⟨[], rfl, rfl, fun _ h => by cases h⟩

/-- Too many operators are noticed where the last one was read. -/
theorem notices_of_addOperator {err : ParseError} (h : s.addOperator = .error err) :
    s.Notices err := by
  simp only [addOperator] at h
  split at h <;> cases h
  exact notices_fail (.of_quoted List.nil_prefix rfl)

/-- A mark that was expected is passed. -/
theorem reaches_of_expect {mark : Char} (hmark : mark.utf8Size = 1) (h : s.expect mark = .ok t) :
    s.Reaches t := by
  simp only [expect] at h
  split at h
  · rename_i hstarts
    cases h
    exact s.reaches_skipBlanks.trans (reaches_consume_one hmark hstarts)
  · cases h

/-- A mark is missed behind the blanks. -/
theorem notices_of_expect {mark : Char} (hmark : isBlank mark = false) {err : ParseError}
    (h : s.expect mark = .error err) : s.Notices err := by
  simp only [expect] at h
  split at h
  · cases h
  · cases h
    refine s.reaches_skipBlanks.notices (notices_fail ⟨s.skipBlanks.quoted_found, ?_⟩)
    rintro mark' found h
    cases h
    exact hmark

/-- An operator word is passed. -/
theorem reaches_of_keyword? {w : List Char} (h : s.keyword? w = some t) : s.Reaches t := by
  simp only [keyword?] at h
  split at h
  · rename_i hw
    cases h
    rw [← hw.2]
    exact s.reaches_skipBlanks.trans s.skipBlanks.reaches_consume_word
  · cases h

/-- A comparison is passed. -/
theorem reaches_of_comparison? {c : Comparison} (h : s.comparison? = .ok (some (c, t))) :
    s.Reaches t := by
  simp only [comparison?] at h
  split at h
  · cases h
  · cases h
  · rename_i hc
    cases h
    have hfront := eq_symbol_append_of_leadingComparison hc
    refine s.reaches_skipBlanks.trans
      (reaches_consume_of_front (w := c.symbol.toList) ⟨_, hfront.symm⟩ ?_)
    cases c <;> simp [Comparison.symbol, Char.utf8Size_eq_one_iff]

/-- Half of a comparison is noticed behind the blanks. -/
theorem notices_of_comparison? {err : ParseError} (h : s.comparison? = .error err) :
    s.Notices err := by
  simp only [comparison?] at h
  split at h
  · rename_i fault hfault
    cases h
    refine s.reaches_skipBlanks.notices (notices_fail ?_)
    -- Neither of the two faults quotes anything.
    unfold leadingComparison at hfault
    split at hfault <;> cases hfault <;> exact .of_quoted List.nil_prefix rfl
  · cases h
  · cases h

/-- A number is passed, and one that is too great is noticed where it starts. -/
theorem keeps_number {α : Type} [Scalar α] (s : State) :
    s.Keeps (s.number : Except ParseError (α × State)) := by
  obtain ⟨sign, hsign, hlength, hfront⟩ := signText_splitSign s.rest
  have hdecimal := LeadingDecimal.text_append_rest_read (splitSign s.rest).2
  have hlongest := LeadingDecimal.isLongest_read (splitSign s.rest).2
  simp only [number]
  generalize LeadingDecimal.read (splitSign s.rest).2 = d at hdecimal hlongest
  split
  · split
    · have hsize : signLength s.rest + d.size = (sign ++ d.text).length := by
        rw [List.length_append, hlength, d.length_text]
      have hpast : sign ++ d.text <+: s.rest :=
        ⟨d.rest, by rw [List.append_assoc, hdecimal, hfront]⟩
      rw [hsize]
      refine reaches_consume_of_front hpast fun c hc => ?_
      exact utf8Size_of_mayStartNumber ((List.mem_append.1 hc).elim hsign.mayStartNumber_of_mem
        hlongest.mayStartNumber_of_mem)
    · exact notices_fail (.of_quoted (List.take_prefix _ _) rfl)
  · exact notices_fail (.of_quoted List.nil_prefix rfl)

end State

namespace Chain

/-- An operator between two operands is passed. -/
theorem reaches_of_operator? {k : Chain} {op : BinaryOp} {s t : State}
    (h : k.operator? s = some (op, t)) : s.Reaches t := by
  cases k with
  | disjunction | conjunction =>
    simp only [operator?, Option.map_eq_some_iff] at h
    obtain ⟨u, hu, he⟩ := h
    cases he
    exact State.reaches_of_keyword? hu
  | sum | product =>
    simp only [operator?] at h
    split at h
    · rename_i hmark
      cases h
      exact s.reaches_skipBlanks.trans (State.reaches_consume_one rfl hmark)
    · split at h
      · rename_i hmark
        cases h
        exact s.reaches_skipBlanks.trans (State.reaches_consume_one rfl hmark)
      · cases h

end Chain

namespace Parser

variable {α : Type}

/-- A reader that keeps to the way from wherever it starts. -/
def KeepsPlace (reader : Parser α) : Prop := ∀ s : State, s.Keeps (reader.run s)

/-- A reader for one level further inside, if there is one, that keeps to the way. -/
def KeepsPlaceInside (reader : Option (Parser α)) : Prop :=
  ∀ inner, reader = some inner → inner.KeepsPlace

section Results

variable {reader : Parser α} {s t : State} {e : Expr α}

/-- What such a reader leaves was reached. -/
theorem KeepsPlace.reaches (hreader : reader.KeepsPlace) (h : reader.run s = .ok (e, t)) :
    s.Reaches t := by
  have hkeeps := hreader s
  rwa [h] at hkeeps

/-- An error of such a reader is noticed on the way. -/
theorem KeepsPlace.notices {err : ParseError} (hreader : reader.KeepsPlace)
    (h : reader.run s = .error err) : s.Notices err := by
  have hkeeps := hreader s
  rwa [h] at hkeeps

end Results

/-- The rest of a row keeps to the way. -/
theorem keeps_continueRow {k : Chain} {operand : Parser α} (hoperand : operand.KeepsPlace)
    (left : Expr α) (s : State) : s.Keeps (k.continueRow operand left s) := by
  fun_induction Chain.continueRow k operand left s with
  | case1 left s => exact s.reaches_skipBlanks
  | case2 left s op s₁ hop err hadd =>
    exact (Chain.reaches_of_operator? hop).notices (State.notices_of_addOperator hadd)
  | case3 left s op s₁ hop s₂ hadd err hrun =>
    exact ((Chain.reaches_of_operator? hop).trans (State.reaches_of_addOperator hadd)).notices
      (hoperand.notices hrun)
  | case4 left s op s₁ hop s₂ hadd right s₃ hrun ih =>
    exact ((Chain.reaches_of_operator? hop).trans (State.reaches_of_addOperator hadd)).keeps
      ((hoperand.reaches hrun).keeps ih)

/-- A row keeps to the way if its operands do. -/
theorem keepsPlace_chain {k : Chain} {operand : Parser α} (hoperand : operand.KeepsPlace) :
    (chain k operand).KeepsPlace := by
  intro s
  simp only [chain]
  split
  · rename_i hrun
    exact hoperand.notices hrun
  · rename_i hrun
    exact (hoperand.reaches hrun).keeps (keeps_continueRow hoperand _ _)

/-- The arguments after the first keep to the way. -/
theorem keeps_moreArguments {argument : Parser α} (hargument : argument.KeepsPlace) (s : State) :
    s.Keeps (moreArguments argument s) := by
  fun_induction moreArguments argument s with
  | case1 s hclosing =>
    exact s.reaches_skipBlanks.trans (State.reaches_consume_one rfl hclosing)
  | case2 s hopen err hcomma => exact State.notices_of_expect rfl hcomma
  | case3 s hopen s₁ hcomma err hrun =>
    exact (State.reaches_of_expect rfl hcomma).notices (hargument.notices hrun)
  | case4 s hopen s₁ hcomma a s₂ hrun err hmore ih =>
    rw [hmore] at ih
    exact ((State.reaches_of_expect rfl hcomma).trans (hargument.reaches hrun)).notices ih
  | case5 s hopen s₁ hcomma a s₂ hrun as s₃ hmore ih =>
    rw [hmore] at ih
    exact ((State.reaches_of_expect rfl hcomma).trans (hargument.reaches hrun)).trans ih

/-- An argument list keeps to the way. -/
theorem keeps_arguments {expression : Option (Parser α)} (hinner : KeepsPlaceInside expression)
    (s : State) : s.Keeps (arguments expression s) := by
  simp only [arguments]
  split
  · rename_i hopening
    exact State.notices_of_expect rfl hopening
  · rename_i s₁ hopening
    refine ((State.reaches_of_expect rfl hopening).trans s₁.reaches_skipBlanks).keeps ?_
    split
    · rename_i hclosing
      exact State.reaches_consume_one rfl hclosing
    · split
      · exact State.notices_fail (.of_quoted List.nil_prefix rfl)
      · rename_i inner
        have hkeeps := hinner inner rfl
        split
        · rename_i hrun
          exact hkeeps.notices hrun
        · rename_i a s₃ hrun
          refine (hkeeps.reaches hrun).keeps ?_
          have hmore := keeps_moreArguments hkeeps s₃
          split
          · rename_i hres
            rwa [hres] at hmore
          · rename_i hres
            rwa [hres] at hmore

/-- A group keeps to the way. -/
theorem keeps_group {expression : Option (Parser α)} (hinner : KeepsPlaceInside expression)
    (s : State) : s.Keeps (group expression s) := by
  simp only [group]
  split
  · exact State.notices_fail (.of_quoted List.nil_prefix rfl)
  · rename_i inner
    have hkeeps := hinner inner rfl
    split
    · rename_i hrun
      exact hkeeps.notices hrun
    · rename_i e s₁ hrun
      refine (hkeeps.reaches hrun).keeps ?_
      split
      · rename_i hclosing
        exact State.notices_of_expect rfl hclosing
      · rename_i hclosing
        exact State.reaches_of_expect rfl hclosing

/-- A name keeps to the way. -/
theorem keeps_named {expression : Option (Parser α)} (hinner : KeepsPlaceInside expression)
    (s : State) : s.Keeps (named expression s) := by
  simp only [named]
  split
  · exact State.notices_fail (.of_quoted (List.takeWhile_prefix _) rfl)
  · refine (s.reaches_consume_word.trans (State.reaches_skipBlanks _)).keeps ?_
    split
    · split
      · rename_i hadd
        exact State.notices_of_addOperator hadd
      · rename_i s₂ hadd
        refine (State.reaches_of_addOperator hadd).keeps ?_
        have harguments := keeps_arguments hinner s₂
        split
        · rename_i hres
          rwa [hres] at harguments
        · rename_i hres
          rwa [hres] at harguments
    · exact .refl _

/-- Rows over negations keep to the way. -/
theorem keepsPlace_expressionOver {reader : Parser α} (h : reader.KeepsPlace) :
    (expressionOver reader).KeepsPlace :=
  keepsPlace_chain (keepsPlace_chain h)

variable [Scalar α]

/-- What is read in place of an operand keeps to the way. -/
theorem keepsPlace_primary {expression : Option (Parser α)}
    (hinner : KeepsPlaceInside expression) : (primary expression).KeepsPlace := by
  intro s
  refine s.reaches_skipBlanks.keeps ?_
  simp only [primary]
  split
  · exact State.notices_fail (.of_quoted List.nil_prefix rfl)
  · rename_i c cs hs
    split
    · rename_i hc
      have hstart : s.skipBlanks.startsWith '(' = true := by
        rw [State.startsWith, hs, hc]
        rfl
      exact (State.reaches_consume_one rfl hstart).keeps (keeps_group hinner _)
    · split
      · have hnumber := s.skipBlanks.keeps_number (α := α)
        split
        · rename_i hres
          rwa [hres] at hnumber
        · rename_i hres
          rwa [hres] at hnumber
      · split
        · exact keeps_named hinner _
        · exact State.notices_fail (.of_quoted ⟨cs, hs.symm⟩ rfl)

/-- A sum or a comparison keeps to the way. -/
theorem keepsPlace_comparison {expression : Option (Parser α)}
    (hinner : KeepsPlaceInside expression) : (comparison expression).KeepsPlace := by
  have hsum : (chain .sum (chain .product (primary expression))).KeepsPlace :=
    keepsPlace_chain (keepsPlace_chain (keepsPlace_primary hinner))
  intro s
  simp only [comparison]
  split
  · rename_i hleft
    exact hsum.notices hleft
  · rename_i left s₁ hleft
    refine (hsum.reaches hleft).keeps ?_
    split
    · rename_i hc
      exact State.notices_of_comparison? hc
    · exact .refl _
    · rename_i c s₂ hc
      refine (State.reaches_of_comparison? hc).keeps ?_
      split
      · rename_i hadd
        exact State.notices_of_addOperator hadd
      · rename_i s₃ hadd
        refine (State.reaches_of_addOperator hadd).keeps ?_
        split
        · rename_i hright
          exact hsum.notices hright
        · rename_i right s₄ hright
          refine (hsum.reaches hright).keeps ?_
          split
          · rename_i hc'
            exact State.notices_of_comparison? hc'
          · rename_i c' s₅ hc'
            exact (State.reaches_of_comparison? hc').notices
              (State.notices_fail (.of_quoted List.nil_prefix rfl))
          · exact .refl _

/-- A negation or a comparison keeps to the way. -/
theorem keepsPlace_negationOver {deeper : Option (Parser α)} (hinner : KeepsPlaceInside deeper) :
    (negationOver deeper).KeepsPlace := by
  have hexpression : KeepsPlaceInside (deeper.map expressionOver) := by
    intro inner hmap
    obtain ⟨reader, hreader, rfl⟩ := Option.map_eq_some_iff.1 hmap
    exact keepsPlace_expressionOver (hinner reader hreader)
  intro s
  simp only [negationOver]
  split
  · exact keepsPlace_comparison hexpression s
  · rename_i s₁ hkeyword
    refine (State.reaches_of_keyword? hkeyword).keeps ?_
    split
    · rename_i hadd
      exact State.notices_of_addOperator hadd
    · rename_i s₂ hadd
      refine (State.reaches_of_addOperator hadd).keeps ?_
      split
      · exact State.notices_fail (.of_quoted List.nil_prefix rfl)
      · rename_i reader
        have hkeeps := hinner reader rfl
        split
        · rename_i hrun
          exact hkeeps.notices hrun
        · rename_i hrun
          exact hkeeps.reaches hrun

/-- Negations keep to the way at any number of nested levels. -/
theorem keepsPlace_negation (levels : Nat) : (negation levels : Parser α).KeepsPlace := by
  induction levels with
  | zero => exact keepsPlace_negationOver fun inner h => by cases h
  | succ n ih =>
    refine keepsPlace_negationOver fun inner h => ?_
    cases h
    exact ih

/-- Expressions keep to the way at any number of nested levels. -/
theorem keepsPlace_expression (levels : Nat) : (expression levels : Parser α).KeepsPlace :=
  keepsPlace_expressionOver (keepsPlace_negation levels)

end Parser

namespace Expr

variable {α : Type} [Scalar α]

/-- An error of a whole text is noticed on the way from its start. -/
theorem notices_of_parse {t : List Char} {err : ParseError}
    (h : (parse t : Except ParseError (Expr α)) = .error err) : (State.start t).Notices err := by
  refine (State.start t).reaches_skipBlanks.notices ?_
  simp only [parse] at h
  split at h
  · cases h
    exact State.notices_fail (.of_quoted List.nil_prefix rfl)
  · split at h
    · rename_i hrun
      cases h
      exact (Parser.keepsPlace_expression maxNesting).notices hrun
    · rename_i e s₁ hrun
      split at h
      · cases h
      · cases h
        refine ((Parser.keepsPlace_expression maxNesting).reaches hrun).notices ?_
        exact s₁.reaches_skipBlanks.notices (State.notices_fail (.of_quoted List.prefix_rfl rfl))

/-- An error of a whole text has a place in it: what stands before the place takes as many bytes as
the error says, and has no characters of several bytes but blanks; the fault fits what stands
behind it. -/
theorem exists_place_of_parse {t : List Char} {err : ParseError}
    (h : (parse t : Except ParseError (Expr α)) = .error err) :
    ∃ before after, t = before ++ after ∧ Utf8.length before = err.position ∧
      (∀ c ∈ before, c.utf8Size = 1 ∨ isBlank c = true) ∧ err.fault.Fits after := by
  obtain ⟨s, fault, ⟨before, hrest, hoffset, hbefore⟩, rfl, hfits⟩ := notices_of_parse h
  refine ⟨before, s.rest, hrest, ?_, hbefore, hfits⟩
  rw [State.fail, hoffset]
  exact (Nat.zero_add _).symm

end Expr

end TradeRules
