import TradeRules.Proofs.Expr.Steps

/-!
# How tokens are passed

The steps for one token lead from the cursor of a state to that of the state behind the token, as
the reader of that token does, and refuse the text where it fails. Characters are passed one by one:
what a scan passes is the longest part that can be added to what was seen (`scanned`).
-/

namespace TradeRules

open Text Number Steps

namespace State

@[simp] theorem consume_zero (s : State) : s.consume 0 = s := rfl

/-- Blanks are skipped once and for all. -/
@[simp] theorem skipBlanks_skipBlanks (s : State) : s.skipBlanks.skipBlanks = s.skipBlanks := by
  have hnone : s.skipBlanks.rest.takeWhile isBlank = [] := by
    rw [rest_skipBlanks, List.takeWhile_eq_nil_iff]
    intro hpos
    simpa using isBlank_head_trimStart (List.cons_getElem_drop_succ (h := hpos)).symm
  rw [skipBlanks, hnone, List.length_nil, consume_zero]

end State

/-- What was seen at the end of a scan, and what it passed. -/
def scanned {σ : Type} (add : σ → Char → Option σ) : σ → List Char → σ × List Char
  | seen, [] => (seen, [])
  | seen, c :: cs =>
    match add seen c with
    | none => (seen, [])
    | some more => ((scanned add more cs).1, c :: (scanned add more cs).2)

/-- A character that can be added is passed. -/
theorem scanned_cons {σ : Type} {add : σ → Char → Option σ} {seen more : σ} {c : Char}
    (hadd : add seen c = some more) (cs : List Char) :
    scanned add seen (c :: cs) = ((scanned add more cs).1, c :: (scanned add more cs).2) := by
  rw [scanned, hadd]

section Characters

variable {text : List Char} {d : Nat} {active : List Activation} {s : State}

/-- What is left at a cursor is what its state has left. -/
theorem leads_remaining (h : s.Stands text d active) :
    Leads text (remaining text) (s.cursor d active) s.rest (s.cursor d active) := by
  obtain ⟨before, htext, hoffset⟩ := h.lies
  exact (leads_cursor _).bind ((leads_cut htext hoffset _).bind (leads_pure _ _))

theorem leads_peek (h : s.Stands text d active) :
    Leads text (peek text) (s.cursor d active) s.rest.head? (s.cursor d active) :=
  (leads_remaining h).bind (leads_pure _ _)

theorem leads_peekSecond (h : s.Stands text d active) :
    Leads text (peekSecond text) (s.cursor d active) s.rest.tail.head? (s.cursor d active) :=
  (leads_remaining h).bind (leads_pure _ _)

/-- The cursor moves past what comes next. -/
theorem leads_pass (h : s.Stands text d active) {w : List Char} (hw : w <+: s.rest) :
    Leads text (move fun c => { c with position := c.position + Utf8.length w })
      (s.cursor d active) () ((s.consume w.length).cursor d active) := by
  have hcursor : (s.consume w.length).cursor d active =
      { s.cursor d active with position := s.offset + Utf8.length w } := by
    rw [State.cursor, State.consume, ← List.prefix_iff_eq_take.1 hw]
    rfl
  have hsound := (h.consume w.length).sound
  rw [hcursor] at hsound ⊢
  exact leads_move hsound

theorem leads_advance (h : s.Stands text d active) {c : Char} {cs : List Char}
    (hrest : s.rest = c :: cs) :
    Leads text (advance text) (s.cursor d active) () ((s.consume 1).cursor d active) := by
  refine (leads_peek h).bind ?_
  rw [hrest]
  exact leads_pass h (w := [c]) ⟨cs, hrest.symm⟩

/-- A scan passes the longest part that can be added, in one round more than it has characters. -/
theorem leads_scan {σ : Type} (add : σ → Char → Option σ) {n : Nat}
    (h : s.Stands text d active) (hn : s.rest.length < n) (seen : σ) :
    Leads text (scan text add n seen) (s.cursor d active) (scanned add seen s.rest).1
      ((s.consume (scanned add seen s.rest).2.length).cursor d active) := by
  induction n generalizing s seen with
  | zero => exact absurd hn (Nat.not_lt_zero _)
  | succ n ih =>
    rw [scan]
    refine (leads_peek h).bind ?_
    cases hrest : s.rest with
    | nil => exact leads_pure _ _
    | cons c cs =>
      rw [List.head?_cons, Option.bind_some, scanned]
      cases hadd : add seen c with
      | none => exact leads_pure _ _
      | some more =>
        rw [hrest, List.length_cons] at hn
        have hone : (s.consume 1).rest = cs := by
          rw [State.rest_consume, hrest]
          rfl
        have hlater := ih (h.consume 1) (by rw [hone]; omega) more
        rw [hone, State.consume_consume, Nat.add_comm 1] at hlater
        exact (leads_advance h hrest).bind hlater

/-- A scan for a class passes its longest run. -/
theorem scanned_class (p : Char → Bool) (cs : List Char) :
    (scanned (fun _ c => if p c then some () else none) () cs).2 = cs.takeWhile p := by
  induction cs with
  | nil => rfl
  | cons c cs ih =>
    rw [scanned, List.takeWhile_cons]
    by_cases hc : p c = true
    · rw [if_pos hc, if_pos hc, ← ih]
    · rw [if_neg hc, if_neg hc]

theorem leads_passWhile (p : Char → Bool) (h : s.Stands text d active) :
    Leads text (passWhile text p) (s.cursor d active) ()
      ((s.consume (s.rest.takeWhile p).length).cursor d active) := by
  rw [← scanned_class]
  exact leads_scan _ h h.lies.length_lt ()

theorem leads_skipBlanks (h : s.Stands text d active) :
    Leads text (skipBlanks text) (s.cursor d active) () (s.skipBlanks.cursor d active) :=
  leads_passWhile isBlank h

/-- What was passed since a state is what came next there. -/
theorem leads_since (h : s.Stands text d active) (n : Nat) :
    Leads text (since text s.offset) ((s.consume n).cursor d active) (s.rest.take n)
      ((s.consume n).cursor d active) := by
  obtain ⟨before, htext, hoffset⟩ := h.lies
  have hcut : text = (before ++ s.rest.take n) ++ s.rest.drop n := by
    rw [List.append_assoc, List.take_append_drop, htext]
  have hplace : Utf8.length (before ++ s.rest.take n) = (s.consume n).offset := by
    rw [Utf8.length_append, hoffset]
    rfl
  refine (leads_cursor _).bind ((leads_cut hcut hplace _).bind ?_)
  exact (leads_cut rfl hoffset _).bind (leads_pure _ _)

end Characters

/-! ### Marks and words -/

section Words

variable {text : List Char} {d : Nat} {active : List Activation} {s t : State}

theorem leads_consume?_true (h : s.Stands text d active) {w : List Char} (hw : w <+: s.rest) :
    Leads text (consume? text w) (s.cursor d active) true
      ((s.consume w.length).cursor d active) := by
  refine (leads_remaining h).bind ?_
  rw [if_pos (List.isPrefixOf_iff_prefix.2 hw)]
  exact (leads_pass h hw).bind (leads_pure _ _)

theorem leads_consume?_false (h : s.Stands text d active) {w : List Char} (hw : ¬ w <+: s.rest) :
    Leads text (consume? text w) (s.cursor d active) false (s.cursor d active) := by
  refine (leads_remaining h).bind ?_
  rw [if_neg (by rwa [List.isPrefixOf_iff_prefix])]
  exact leads_pure _ _

/-- A mark comes next where it is the first character that is left. -/
theorem head?_eq_iff {mark : Char} : s.rest.head? = some mark ↔ s.startsWith mark = true := by
  rw [State.startsWith, beq_iff_eq]

/-- A mark comes next where the text goes on with it. -/
theorem startsWith_iff_isPrefix {mark : Char} : s.startsWith mark = true ↔ [mark] <+: s.rest := by
  rw [← head?_eq_iff, List.head?_eq_some_iff]
  exact ⟨fun ⟨cs, hcs⟩ => ⟨cs, hcs.symm⟩, fun ⟨cs, hcs⟩ => ⟨cs, hcs.symm⟩⟩

/-- The word that comes next is a given one where that one comes next and nothing continues it. -/
theorem leads_wordIsNext (h : s.Stands text d active) {w : List Char}
    (hw : w.all isNameChar = true) :
    Leads text (wordIsNext text w) (s.cursor d active) (decide (s.word = w))
      (s.cursor d active) := by
  refine (leads_remaining h).bind ?_
  by_cases hfront : w <+: s.rest
  · obtain ⟨after, hafter⟩ := hfront
    rw [if_pos (List.isPrefixOf_iff_prefix.2 ⟨after, hafter⟩), State.word, ← hafter]
    refine (leads_cut rfl rfl _).bind ?_
    cases hends : after.head?.any isNameChar with
    | false =>
      rw [takeWhile_append_of_stop hw hends, decide_eq_true rfl]
      exact leads_pure _ _
    | true =>
      have hlonger : (w ++ after).takeWhile isNameChar ≠ w := by
        rw [List.takeWhile_append_of_pos (List.all_eq_true.1 hw)]
        cases after with
        | nil => cases hends
        | cons c cs => simp [List.takeWhile_cons_of_pos (show isNameChar c = true from hends)]
      rw [decide_eq_false hlonger]
      exact leads_pure _ _
  · rw [if_neg (by rwa [List.isPrefixOf_iff_prefix]), decide_eq_false]
    · exact leads_pure _ _
    · rintro rfl
      exact hfront (List.takeWhile_prefix _)

/-- An operator word that comes next behind blanks is passed. -/
theorem leads_consumeWord?_true (h : s.Stands text d active) {w : List Char}
    (hw : w.all isNameChar = true) (hword : s.keyword? w = some t) :
    Leads text (consumeWord? text w) (s.cursor d active) true (t.cursor d active) := by
  simp only [State.keyword?] at hword
  split at hword
  · rename_i hnext
    cases hword
    refine (leads_skipBlanks h).bind ((leads_wordIsNext h.skipBlanks hw).bind ?_)
    rw [if_pos (decide_eq_true hnext.2)]
    have hfront : w <+: s.skipBlanks.rest := by
      rw [← hnext.2]
      exact List.takeWhile_prefix _
    exact (leads_pass h.skipBlanks hfront).bind (leads_pure _ _)
  · cases hword

/-- Where an operator word does not come next, blanks are passed. -/
theorem leads_consumeWord?_false (h : s.Stands text d active) {w : List Char}
    (hw : w.all isNameChar = true) (hne : w ≠ []) (hword : s.keyword? w = none) :
    Leads text (consumeWord? text w) (s.cursor d active) false (s.skipBlanks.cursor d active) := by
  simp only [State.keyword?] at hword
  split at hword
  · cases hword
  · rename_i hnext
    refine (leads_skipBlanks h).bind ((leads_wordIsNext h.skipBlanks hw).bind ?_)
    rw [if_neg (by simpa [hne] using hnext)]
    exact leads_pure _ _

/-- The first of some words that comes next is the word that comes next. -/
theorem leads_firstWord? (h : s.Stands text d active) (words : List (List Char))
    (hwords : ∀ w ∈ words, w.all isNameChar = true) :
    Leads text (firstWord? text words) (s.cursor d active)
      (if s.word ∈ words then some s.word else none) (s.cursor d active) := by
  induction words with
  | nil => exact leads_pure _ _
  | cons w words ih =>
    obtain ⟨hw, hwords⟩ := List.forall_mem_cons.1 hwords
    refine (leads_wordIsNext h hw).bind ?_
    by_cases hword : s.word = w
    · rw [if_pos (decide_eq_true hword), if_pos (List.mem_cons.2 (.inl hword)), hword]
      exact leads_pure _ _
    · have hmem : s.word ∈ w :: words ↔ s.word ∈ words := by simp [hword]
      rw [if_neg (by simpa using hword), if_congr hmem rfl rfl]
      exact ih hwords

theorem leads_found (h : s.Stands text d active) :
    Leads text (found text) (s.cursor d active) s.found (s.cursor d active) := by
  refine (leads_remaining h).bind ((leads_peek h).bind ?_)
  rw [State.found, State.word]
  cases s.rest with
  | nil => exact leads_pure _ _
  | cons c cs => exact leads_pure _ _

/-- A mark that has to come next is passed behind blanks. -/
theorem leads_expect (h : s.Stands text d active) {mark : Char} (hmark : s.expect mark = .ok t) :
    Leads text (expect text mark) (s.cursor d active) () (t.cursor d active) := by
  simp only [State.expect] at hmark
  split at hmark
  · rename_i hstarts
    cases hmark
    obtain ⟨cs, hcs⟩ := startsWith_iff_isPrefix.1 hstarts
    refine (leads_skipBlanks h).bind ((leads_peek h.skipBlanks).bind ?_)
    rw [if_pos (head?_eq_iff.2 hstarts)]
    exact leads_advance h.skipBlanks hcs.symm
  · cases hmark

/-- A mark that is missed is noticed behind blanks. -/
theorem refuses_expect (h : s.Stands text d active) {mark : Char} {err : ParseError}
    (hmark : s.expect mark = .error err) :
    Refuses text (expect text mark) (s.cursor d active) err := by
  simp only [State.expect] at hmark
  split at hmark
  · cases hmark
  · rename_i hstarts
    cases hmark
    refine (leads_skipBlanks h).refuses ((leads_peek h.skipBlanks).refuses ?_)
    rw [if_neg (mt head?_eq_iff.1 hstarts)]
    exact (leads_found h.skipBlanks).refuses (refuses_refuse _ _ _ _)

theorem leads_name (h : s.Stands text d active) :
    Leads text (name text) (s.cursor d active) s.word
      ((s.consume s.word.length).cursor d active) := by
  have hword : s.rest.take s.word.length = s.word :=
    (List.prefix_iff_eq_take.1 (List.takeWhile_prefix _)).symm
  have hsince := leads_since h s.word.length
  rw [hword] at hsince
  exact (leads_cursor _).bind ((leads_passWhile isNameChar h).bind hsince)

end Words

/-! ### Numbers -/

/-- A scan for a decimal passes digits and counts them. -/
theorem scanned_digits {digits : List Char} (hdigits : digits.all Char.isDigit = true)
    (point : Bool) (n : Nat) (rest : List Char) :
    scanned addPlace (point, n) (digits ++ rest) =
      ((scanned addPlace (point, n + digits.length) rest).1,
        digits ++ (scanned addPlace (point, n + digits.length) rest).2) := by
  induction digits generalizing n with
  | nil => rfl
  | cons c digits ih =>
    obtain ⟨hc, hdigits⟩ := List.forall_mem_cons.1 (List.all_eq_true.1 hdigits)
    have hadd : addPlace (point, n) c = some (point, n + 1) := if_pos hc
    rw [List.cons_append, scanned_cons hadd, ih (List.all_eq_true.2 hdigits), List.length_cons,
      Nat.add_assoc, Nat.add_comm 1]
    rfl

/-- A scan for a decimal ends where neither a digit nor a first point follows. -/
theorem scanned_end {rest : List Char} (hdigit : rest.head?.any Char.isDigit = false)
    {point : Bool} (hpoint : point = false → rest.head? ≠ some '.') (n : Nat) :
    scanned addPlace (point, n) rest = ((point, n), []) := by
  cases rest with
  | nil => rfl
  | cons c cs =>
    have hc : c.isDigit = false := by simpa using hdigit
    have hadd : addPlace (point, n) c = none := by
      rw [addPlace, if_neg (by rw [hc]; decide), if_neg]
      rintro ⟨rfl, hfirst⟩
      exact hpoint hfirst rfl
    rw [scanned, hadd]

/-- A scan for a decimal passes the longest one. -/
theorem scanned_decimal {d : LeadingDecimal} (h : d.IsLongest) :
    scanned addPlace (false, 0) (d.text ++ d.rest) =
      ((d.fraction.isSome, d.whole.length + d.places.length), d.text) := by
  obtain ⟨whole, fraction, rest⟩ := d
  obtain ⟨hwhole, hplaces, hdigit, hpoint⟩ := h
  dsimp only [LeadingDecimal.places] at hwhole hplaces hdigit hpoint
  cases fraction with
  | none =>
    simp only [LeadingDecimal.text, LeadingDecimal.places, Option.map_none, Option.getD_none,
      List.append_nil, List.length_nil, Nat.add_zero, Option.isSome_none]
    rw [scanned_digits hwhole, scanned_end hdigit fun _ => hpoint rfl, Nat.zero_add,
      List.append_nil]
  | some digits =>
    rw [Option.getD_some] at hplaces
    have hadd : addPlace (false, whole.length) '.' = some (true, whole.length) := rfl
    simp only [LeadingDecimal.text, LeadingDecimal.places, Option.map_some, Option.getD_some,
      List.append_assoc, List.cons_append, Option.isSome_some]
    rw [scanned_digits hwhole, Nat.zero_add, scanned_cons hadd, scanned_digits hplaces,
      scanned_end hdigit (fun h => absurd h (by decide)), List.append_nil]

/-- There is a digit where digits were counted. -/
theorem hasDigit_eq_false_iff {d : LeadingDecimal} :
    d.hasDigit = false ↔ d.whole.length + d.places.length = 0 := by
  simp [LeadingDecimal.hasDigit]

/-- The longest decimal is read again where nothing follows it. -/
theorem read_text {d : LeadingDecimal} (h : d.IsLongest) :
    LeadingDecimal.read d.text = { d with rest := [] } := by
  have halone : LeadingDecimal.IsLongest { d with rest := [] } :=
    ⟨h.whole_digits, h.places_digits, rfl, fun _ hpoint => by cases hpoint⟩
  have hread := LeadingDecimal.read_of_isLongest halone
  rwa [List.append_nil] at hread

/-- A decimal with a digit starts with no sign. -/
theorem head?_text_ne {d : LeadingDecimal} (h : d.IsLongest) (hdigit : d.hasDigit = true) :
    d.text.head? ≠ some '-' ∧ d.text.head? ≠ some '+' := by
  obtain ⟨c, cs, htext, hc⟩ := LeadingDecimal.head?_text h hdigit
  rw [htext]
  constructor
  · rintro hsign
    cases hsign
    exact absurd hc (by decide)
  · rintro hsign
    cases hsign
    exact absurd hc (by decide)

section Numbers

variable {text : List Char} {d : Nat} {active : List Activation} {s : State}

/-- A sign takes one character. -/
theorem signLength_eq (cs : List Char) :
    signLength cs = if cs.head? = some '-' ∨ cs.head? = some '+' then 1 else 0 := by
  cases cs with
  | nil => rfl
  | cons c cs =>
    by_cases hminus : c = '-'
    · rw [hminus]
      rfl
    · by_cases hplus : c = '+'
      · rw [hplus]
        rfl
      · simp [signLength, hminus, hplus]

/-- A sign is passed where there is one. -/
theorem leads_passSign (h : s.Stands text d active) :
    Leads text (passSign text) (s.cursor d active) ()
      ((s.consume (signLength s.rest)).cursor d active) := by
  refine (leads_peek h).bind ?_
  rw [signLength_eq]
  split
  · obtain ⟨c, cs, hrest⟩ : ∃ c cs, s.rest = c :: cs := by
      cases hrest : s.rest with
      | nil => simp_all
      | cons c cs => exact ⟨c, cs, rfl⟩
    exact leads_advance h hrest
  · exact leads_pure _ _

/-- Behind the sign the longest decimal is passed, and its digits are counted. -/
theorem leads_decimal (h : s.Stands text d active) {decimal : LeadingDecimal}
    (hread : LeadingDecimal.read (splitSign s.rest).2 = decimal) :
    Leads text (scan text addPlace (rounds text) (false, 0))
      ((s.consume (signLength s.rest)).cursor d active)
      (decimal.fraction.isSome, decimal.whole.length + decimal.places.length)
      ((s.consume (signLength s.rest + decimal.size)).cursor d active) := by
  obtain ⟨sign, -, hlength, hfront⟩ := signText_splitSign s.rest
  have hunsigned : (s.consume (signLength s.rest)).rest = (splitSign s.rest).2 := by
    rw [State.rest_consume, ← hlength]
    nth_rewrite 1 [← hfront]
    exact List.drop_left
  have hlongest := LeadingDecimal.isLongest_read (splitSign s.rest).2
  have hdecimal := LeadingDecimal.text_append_rest_read (splitSign s.rest).2
  rw [hread] at hlongest hdecimal
  have hsigned := h.consume (signLength s.rest)
  have hscan := leads_scan addPlace hsigned hsigned.lies.length_lt (false, 0)
  rwa [hunsigned, ← hdecimal, scanned_decimal hlongest, State.consume_consume,
    decimal.length_text] at hscan

/-- What a number takes is its sign and its decimal again. -/
theorem splitSign_numeral {cs : List Char} {decimal : LeadingDecimal}
    (hread : LeadingDecimal.read (splitSign cs).2 = decimal) (hdigit : decimal.hasDigit = true) :
    splitSign (cs.take (signLength cs + decimal.size)) = ((splitSign cs).1, decimal.text) := by
  obtain ⟨sign, hsign, hlength, hfront⟩ := signText_splitSign cs
  have hlongest := LeadingDecimal.isLongest_read (splitSign cs).2
  have hdecimal := LeadingDecimal.text_append_rest_read (splitSign cs).2
  rw [hread] at hlongest hdecimal
  have hnumeral : cs.take (signLength cs + decimal.size) = sign ++ decimal.text := by
    rw [← hlength, ← decimal.length_text, ← List.length_append]
    rw [← hdecimal, ← List.append_assoc] at hfront
    rw [← hfront]
    exact List.take_left
  obtain ⟨hminus, hplus⟩ := head?_text_ne hlongest hdigit
  rw [hnumeral, (splitSign_append hsign hminus hplus).1]

/-- A number is passed, and its value is that of the text that was passed. -/
theorem agrees_number {α : Type} [Scalar α] (h : s.Stands text d active) :
    Agrees text d active (number text : Steps α) (s.cursor d active) s.number := by
  have hlongest := LeadingDecimal.isLongest_read (splitSign s.rest).2
  simp only [State.number]
  generalize hread : LeadingDecimal.read (splitSign s.rest).2 = decimal at hlongest ⊢
  have hsign := leads_passSign h
  have hscan := leads_decimal h hread
  have hsince := leads_since h (signLength s.rest + decimal.size)
  cases hdigit : decimal.hasDigit with
  | false =>
    rw [if_neg (by decide)]
    refine (leads_cursor _).refuses (hsign.refuses (hscan.refuses ?_))
    rw [if_pos (hasDigit_eq_false_iff.1 hdigit)]
    exact refuses_refuseAt _ _ _
  | true =>
    have hdigits : ¬ decimal.whole.length + decimal.places.length = 0 := by
      rw [← hasDigit_eq_false_iff, hdigit]
      decide
    have hvalue : (LeadingDecimal.read decimal.text).magnitude = decimal.magnitude := by
      rw [read_text hlongest]
      rfl
    rw [if_pos rfl]
    refine (leads_cursor _).agrees (hsign.agrees (hscan.agrees ?_))
    rw [if_neg hdigits]
    refine hsince.agrees ?_
    rw [splitSign_numeral hread hdigit]
    dsimp only
    rw [hvalue]
    split
    · exact leads_pure _ _
    · exact refuses_refuseAt _ _ _

/-- A number starts with a digit or a point, or with a sign before one of them. -/
theorem startsNumber_of_cons {c : Char} {cs : List Char} (hrest : s.rest = c :: cs) :
    s.startsNumber = (State.startsNumber.isNumeric c ||
      ((c == '-' || c == '+') && cs.head?.any State.startsNumber.isNumeric)) := by
  rw [State.startsNumber, hrest]
  cases cs with
  | nil => simp
  | cons d cs => rfl

theorem leads_numberIsNext (h : s.Stands text d active) :
    Leads text (numberIsNext text) (s.cursor d active) s.startsNumber (s.cursor d active) := by
  refine (leads_peek h).bind ?_
  cases hrest : s.rest with
  | nil =>
    rw [State.startsNumber, hrest]
    exact leads_pure _ _
  | cons c cs =>
    rw [startsNumber_of_cons hrest]
    dsimp only [List.head?_cons]
    by_cases hnumeric : State.startsNumber.isNumeric c = true
    · rw [if_pos hnumeric, hnumeric, Bool.true_or]
      exact leads_pure _ _
    · rw [if_neg hnumeric, Bool.eq_false_of_not_eq_true hnumeric, Bool.false_or]
      by_cases hsign : c = '-' ∨ c = '+'
      · have hmark : (c == '-' || c == '+') = true := by simpa using hsign
        have hsecond := leads_peekSecond h
        rw [hrest, List.tail_cons] at hsecond
        rw [if_pos hsign, hmark, Bool.true_and]
        exact hsecond.bind (leads_pure _ _)
      · have hmark : (c == '-' || c == '+') = false := by simpa using hsign
        rw [if_neg hsign, hmark, Bool.false_and]
        exact leads_pure _ _

end Numbers

/-! ### Operators -/

section Operators

variable {text : List Char} {d : Nat} {active : List Activation} {s t : State}

/-- The comparison with which a text starts is the first one that is found of those that are
tried; half of a comparison is noticed where none is found. -/
theorem leadingComparison_eq (cs : List Char) :
    State.leadingComparison cs =
      match comparisons.find? fun c => c.symbol.toList.isPrefixOf cs with
      | some c => .ok (some c)
      | none =>
        if cs.head? = some '=' then .error .singleEquals
        else if cs.head? = some '!' then .error .loneBang
        else .ok none := by
  fun_cases State.leadingComparison cs with
  | case1 | case2 | case3 | case4 => rfl
  | case5 cs hhalf | case6 cs hhalf | case7 cs hhalf | case8 cs hhalf =>
    cases cs with
    | nil => rfl
    | cons c cs =>
      have hc : ('=' == c) = false := beq_eq_false_iff_ne.2 fun h => hhalf cs (by rw [h])
      simp [comparisons, Comparison.symbol, List.find?, List.isPrefixOf, hc]
  | case9 _ _ _ _ hlt hgt heq hne =>
    cases cs with
    | nil => rfl
    | cons c cs =>
      have hc : '<' ≠ c ∧ '>' ≠ c ∧ '=' ≠ c ∧ '!' ≠ c := by
        refine ⟨?_, ?_, ?_, ?_⟩ <;> rintro rfl <;> simp_all
      have hnone : comparisons.find? (fun k => k.symbol.toList.isPrefixOf (c :: cs)) = none := by
        simp [comparisons, Comparison.symbol, hc]
      simp [hnone, Ne.symm hc.2.2.1, Ne.symm hc.2.2.2]

theorem leads_firstComparison?_some (h : s.Stands text d active) {c : Comparison}
    {cs : List Comparison}
    (hfound : cs.find? (fun c => c.symbol.toList.isPrefixOf s.rest) = some c) :
    Leads text (firstComparison? text cs) (s.cursor d active) (some c)
      ((s.consume c.symbol.toList.length).cursor d active) := by
  induction cs with
  | nil => cases hfound
  | cons first cs ih =>
    by_cases hfront : first.symbol.toList <+: s.rest
    · have hpos : first.symbol.toList.isPrefixOf s.rest = true :=
        List.isPrefixOf_iff_prefix.2 hfront
      rw [List.find?_cons, hpos] at hfound
      cases hfound
      exact (leads_consume?_true h hfront).bind (leads_pure _ _)
    · have hneg : first.symbol.toList.isPrefixOf s.rest = false := by
        rwa [← Bool.not_eq_true, List.isPrefixOf_iff_prefix]
      rw [List.find?_cons, hneg] at hfound
      exact (leads_consume?_false h hfront).bind (ih hfound)

theorem leads_firstComparison?_none (h : s.Stands text d active) {cs : List Comparison}
    (hnone : cs.find? (fun c => c.symbol.toList.isPrefixOf s.rest) = none) :
    Leads text (firstComparison? text cs) (s.cursor d active) none (s.cursor d active) := by
  induction cs with
  | nil => exact leads_pure _ _
  | cons first cs ih =>
    obtain ⟨hfront, hcs⟩ := List.forall_mem_cons.1 (List.find?_eq_none.1 hnone)
    rw [List.isPrefixOf_iff_prefix] at hfront
    exact (leads_consume?_false h hfront).bind (ih (List.find?_eq_none.2 hcs))

/-- A comparison that comes next behind blanks is passed, half of one is refused, and where there is
none blanks are passed. -/
theorem comparison?_outcome (h : s.Stands text d active) :
    match s.comparison? with
    | .ok (some (c, t)) =>
      Leads text (comparison? text) (s.cursor d active) (some c) (t.cursor d active)
    | .ok none =>
      Leads text (comparison? text) (s.cursor d active) none (s.skipBlanks.cursor d active)
    | .error err => Refuses text (comparison? text) (s.cursor d active) err := by
  simp only [State.comparison?, leadingComparison_eq]
  cases hfound : comparisons.find? fun c => c.symbol.toList.isPrefixOf s.skipBlanks.rest with
  | some c =>
    have hlength : c.symbol.length = c.symbol.toList.length := by cases c <;> rfl
    have hfirst := leads_firstComparison?_some h.skipBlanks hfound
    rw [← hlength] at hfirst
    exact (leads_skipBlanks h).bind (hfirst.bind (leads_pure _ _))
  | none =>
    have hfirst := leads_firstComparison?_none h.skipBlanks hfound
    have hpeek := leads_peek h.skipBlanks
    by_cases hequals : s.skipBlanks.rest.head? = some '='
    · rw [if_pos hequals]
      refine (leads_skipBlanks h).refuses (hfirst.refuses (hpeek.refuses ?_))
      rw [if_pos hequals]
      exact refuses_refuse _ _ _ _
    · rw [if_neg hequals]
      by_cases hbang : s.skipBlanks.rest.head? = some '!'
      · rw [if_pos hbang]
        refine (leads_skipBlanks h).refuses (hfirst.refuses (hpeek.refuses ?_))
        rw [if_neg hequals, if_pos hbang]
        exact refuses_refuse _ _ _ _
      · rw [if_neg hbang]
        refine (leads_skipBlanks h).bind (hfirst.bind (hpeek.bind ?_))
        rw [if_neg hequals, if_neg hbang]
        exact leads_pure _ _

/-- One of two marks is passed behind blanks, and where there is neither blanks are. -/
theorem marks_outcome (h : s.Stands text d active) (mark mark' : Char) (op op' : BinaryOp) :
    match (if s.skipBlanks.startsWith mark then some (op, s.skipBlanks.consume 1)
      else if s.skipBlanks.startsWith mark' then some (op', s.skipBlanks.consume 1)
      else none : Option (BinaryOp × State)) with
    | some (read, t) =>
      Leads text (eitherMark? text mark mark' op op') (s.cursor d active) (some read)
        (t.cursor d active)
    | none =>
      Leads text (eitherMark? text mark mark' op op') (s.cursor d active) none
        (s.skipBlanks.cursor d active) := by
  by_cases hmark : s.skipBlanks.startsWith mark = true
  · rw [if_pos hmark]
    have hpassed := leads_consume?_true h.skipBlanks (startsWith_iff_isPrefix.1 hmark)
    exact (leads_skipBlanks h).bind (hpassed.bind (leads_pure _ _))
  · rw [if_neg hmark]
    rw [startsWith_iff_isPrefix] at hmark
    have hmissed := leads_consume?_false h.skipBlanks hmark
    by_cases hmark' : s.skipBlanks.startsWith mark' = true
    · rw [if_pos hmark']
      have hpassed := leads_consume?_true h.skipBlanks (startsWith_iff_isPrefix.1 hmark')
      exact (leads_skipBlanks h).bind (hmissed.bind (hpassed.bind (leads_pure _ _)))
    · rw [if_neg hmark']
      rw [startsWith_iff_isPrefix] at hmark'
      have hmissed' := leads_consume?_false h.skipBlanks hmark'
      exact (leads_skipBlanks h).bind (hmissed.bind (hmissed'.bind (leads_pure _ _)))

/-- An operator word is passed, and where there is none blanks are. -/
theorem markWord_outcome (h : s.Stands text d active) {w : List Char}
    (hw : w.all isNameChar = true) (hne : w ≠ []) (op : BinaryOp) :
    match (s.keyword? w).map ((op, ·) : State → BinaryOp × State) with
    | some (read, t) =>
      Leads text (markWord? text w op) (s.cursor d active) (some read) (t.cursor d active)
    | none =>
      Leads text (markWord? text w op) (s.cursor d active) none
        (s.skipBlanks.cursor d active) := by
  cases hword : s.keyword? w with
  | some t => exact (leads_consumeWord?_true h hw hword).bind (leads_pure _ _)
  | none => exact (leads_consumeWord?_false h hw hne hword).bind (leads_pure _ _)

/-- An operator of a row is passed, and where there is none blanks are. -/
theorem operator?_outcome (h : s.Stands text d active) (k : Chain) :
    match k.operator? s with
    | some (op, t) =>
      Leads text (operator? text k) (s.cursor d active) (some op) (t.cursor d active)
    | none =>
      Leads text (operator? text k) (s.cursor d active) none (s.skipBlanks.cursor d active) := by
  cases k with
  | disjunction => exact markWord_outcome (w := "OR".toList) h rfl (by decide) .or
  | conjunction => exact markWord_outcome (w := "AND".toList) h rfl (by decide) .and
  | sum => exact marks_outcome h '+' '-' (.compute .add) (.compute .sub)
  | product => exact marks_outcome h '*' '/' (.compute .mul) (.compute .div)

end Operators

end TradeRules
