import TradeRules.Proofs.Expr.Completeness
import TradeRules.Proofs.Expr.Nesting
import TradeRules.Proofs.Number.ReadBack

/-!
# Canonical texts are read back

The canonical text of a legible tree is a phrase at the level of its root and is nested `nesting`
levels deep, whatever follows that could not be part of a word or a number. As the parser is
complete, a tree within the limits is read back from its text; as it is sound, no other tree is.
Rendering what was accepted therefore changes nothing.
-/

namespace TradeRules

open Text Number Grammar

namespace Grammar

/-- What may follow a word or a number without being part of it. -/
structure Closes (r : List Char) : Prop where
  /-- The word ends. -/
  ends : EndsWord r
  /-- The number ends. -/
  no_point : r.head? ≠ some '.'

/-- A character that closes words and numbers. -/
theorem closes_cons {c : Char} {r : List Char} (hc : isNameChar c = false) (hpoint : c ≠ '.') :
    Closes (c :: r) :=
  ⟨by simp [EndsWord, hc], by simp [hpoint]⟩

/-- A token that starts the text it is read from. -/
theorem token_append {w r : List Char} (h : (w ++ r).head?.any isBlank = false) :
    Token w (w ++ r) r :=
  trimStart_of_head h

/-- A mark that starts the text it is read from. -/
theorem token_mark {c : Char} (hc : isBlank c = false) (r : List Char) : Token [c] (c :: r) r :=
  token_append (w := [c]) (by simpa using hc)

/-- A blank before a text is dropped with those that lead the text. -/
theorem trimStart_blank (s : List Char) : trimStart s = trimStart (' ' :: s) :=
  (trimStart_cons_of_isBlank (by decide) s).symm

/-- An operator is written with a blank on either side. -/
theorem operator_symbol (op : BinaryOp) (r : List Char) :
    Operator op (' ' :: (op.symbol.toList ++ ' ' :: r)) (' ' :: r) := by
  rw [← operator_iff_of_trimStart (trimStart_blank _)]
  cases op with
  | or | and => exact ⟨token_append rfl, rfl⟩
  | compare c => cases c <;> exact token_append rfl
  | compute a => cases a <;> exact token_append rfl

/-- A name stands before what closes it. -/
theorem IsName.word {n r : List Char} (h : IsName n) (hr : EndsWord r) : Word n (n ++ r) r := by
  refine ⟨token_append ?_, hr⟩
  cases n with
  | nil => exact absurd rfl h.ne_nil
  | cons c cs =>
    have hc : isNameStart c = true := by simpa using h.1
    have hblank : isBlank c = false := isBlank_of_mayStartPhrase (by simp [mayStartPhrase, hc])
    simpa using hblank

/-- The text of a finite number is read as that number. -/
theorem numberToken_spell {α : Type} [Scalar α] [ReadsBack α] {x : α} {r : List Char}
    (hx : Scalar.isFinite x = true) (hr : Closes r) : NumberToken (Scalar.spell x ++ r) x r := by
  obtain ⟨sign, negative, hsign, d, hspell, hvalue⟩ := ReadsBack.spell_finite x hx
  have hnodigit : r.head?.any Char.isDigit = false := by
    have hends := hr.ends
    rw [EndsWord] at hends
    cases r with
    | nil => rfl
    | cons c cs =>
      have hc : isNameChar c = false := by simpa using hends
      simp only [isNameChar, Char.isAlphanum, Bool.or_eq_false_iff] at hc
      simpa using hc.1.2
  have hlongest := d.isLongest_leading hnodigit hr.no_point
  obtain ⟨c, cs, htext, hc⟩ := start_signed hsign hlongest (d.hasDigit_leading r)
  have hblank : isBlank c = false := isBlank_of_mayStartPhrase (by simp [mayStartPhrase, hc])
  refine ⟨sign, negative, hsign, d.leading r, hlongest, d.hasDigit_leading r, rfl, ?_, ?_, hx⟩
  · rw [hspell, ← Decimal.text_leading d r]
    refine token_append ?_
    rw [htext]
    simpa using hblank
  · rw [Decimal.magnitude_leading]
    exact hvalue

variable {α : Type} [Scalar α]

/-- A text that is a phrase for a tree at the level of its root, before whatever closes it. -/
def Spells (s : List Char) (e : Expr α) : Prop :=
  ∀ r, Closes r → Phrase e.binding e.nesting (s ++ r) e r

/-- With parentheses where it binds less strongly than it is asked to, a tree is a phrase of any
level. -/
theorem Spells.operand {s r : List Char} {e : Expr α} {p : Nat} (h : Spells s e) (hp : p ≤ 7)
    (hr : Closes r) :
    Phrase p (nestedIf (e.binding < p) e.nesting) (parenthesized (e.binding < p) s ++ r) e r := by
  by_cases hlt : e.binding < p
  · have hinner : Phrase 1 e.nesting (s ++ ')' :: r) e (')' :: r) :=
      (h _ (closes_cons (by decide) (by decide))).loosen e.binding_pos
    have hgroup := (Phrase.group (token_mark rfl _) hinner (token_mark rfl r)).loosen hp
    simpa [hlt, nestedIf, parenthesized] using hgroup
  · have hphrase := (h r hr).loosen (Nat.le_of_not_lt hlt)
    simpa [hlt, nestedIf, parenthesized] using hphrase

/-- The text of an operator with its operands, cut where its tokens start. -/
theorem spell_binary_append (op : BinaryOp) (a b : Expr α) (r : List Char) :
    (Expr.binary op a b).spell ++ r =
      parenthesized (op.wrapsLeft a.binding) a.spell ++
        ' ' :: (op.symbol.toList ++
          ' ' :: (parenthesized (op.wrapsRight b.binding) b.spell ++ r)) := by
  simp [Expr.spell]

/-- Two operands with an operator between them spell its application. -/
theorem spells_binary {op : BinaryOp} {a b : Expr α} (ha : Spells a.spell a)
    (hb : Spells b.spell b) : Spells (Expr.binary op a b).spell (.binary op a b) := by
  intro r hr
  have hbounds := op.binding_bounds
  have hright := (hb.operand (p := op.binding + 1) (by omega) hr).of_trimStart (trimStart_blank _)
  rw [← BinaryOp.wrapsRight_eq] at hright
  have hoperator := operator_symbol op (parenthesized (op.wrapsRight b.binding) b.spell ++ r)
  rw [spell_binary_append, Expr.binding, Expr.nesting]
  generalize parenthesized (op.wrapsRight b.binding) b.spell ++ r = rest at hright hoperator
  have hcloses : Closes (' ' :: (op.symbol.toList ++ ' ' :: rest)) :=
    closes_cons (by decide) (by decide)
  -- Comparisons ask for more of their left operand than the other operators do.
  cases hop : op.isComparison with
  | false =>
    have hleft := ha.operand (p := op.binding) (by omega) hcloses
    rw [← BinaryOp.wrapsLeft_of_associates hop] at hleft
    exact .row hop hleft hoperator hright
  | true =>
    cases op with
    | compare c =>
      have hleft := ha.operand (p := 5) (by decide) hcloses
      rw [← BinaryOp.wrapsLeft_compare c] at hleft
      exact .comparison hleft hoperator hright
    | or | and | compute _ => cases hop

/-- The word `NOT` before its operand spells the negation. -/
theorem spells_not {e : Expr α} (h : Spells e.spell e) : Spells (Expr.not e).spell (.not e) := by
  intro r hr
  have hoperand := (h.operand (p := 3) (by decide) hr).of_trimStart (trimStart_blank _)
  have hword : Word "NOT".toList
      ("NOT".toList ++ ' ' :: (parenthesized (e.binding < 3) e.spell ++ r))
      (' ' :: (parenthesized (e.binding < 3) e.spell ++ r)) := ⟨token_append rfl, rfl⟩
  have hnot := Phrase.negation hword hoperand
  simpa [Expr.spell, Expr.nesting, Expr.binding] using hnot

/-- A row of arguments in parentheses is an argument list. -/
theorem arguments_spell {args : List (Expr α)} (h : args ≠ [] → ∀ r,
      Phrases (Expr.nestingIn args) (Expr.spellArguments args ++ ')' :: r) args (')' :: r))
    (r : List Char) : Arguments (nestedIf (!args.isEmpty) (Expr.nestingIn args))
      ('(' :: (Expr.spellArguments args ++ ')' :: r)) args r := by
  cases args with
  | nil => exact .none (token_mark rfl _) (token_mark rfl r)
  | cons e es =>
    exact .some (token_mark rfl _) (h (List.cons_ne_nil e es) r) (token_mark rfl r)

mutual

/-- The canonical text of a legible tree is a phrase at the level of its root. -/
theorem spells_spell [ReadsBack α] : ∀ e : Expr α, e.Legible → Spells e.spell e
  | .literal _, h => fun _ hr => .literal (numberToken_spell h hr)
  | .name n, h => fun r hr => by
    have hphrase := Phrase.name (α := α) h (IsName.word h hr.ends)
    rwa [String.ofList_toList] at hphrase
  | .call f args, h => fun r _ => by
    obtain ⟨hname, hargs⟩ := h
    have hword := hname.word (r := '(' :: (Expr.spellArguments args ++ ')' :: r)) rfl
    have hphrase := Phrase.call hname hword (arguments_spell (row_spell args hargs) r)
    rw [String.ofList_toList] at hphrase
    simpa [Expr.spell, Expr.nesting, Expr.binding] using hphrase
  | .not e, h => spells_not (spells_spell e h)
  | .binary _ a b, h => spells_binary (spells_spell a h.1) (spells_spell b h.2)

/-- The canonical text of legible arguments is a row of phrases. -/
theorem row_spell [ReadsBack α] : ∀ args : List (Expr α), Expr.LegibleIn args → args ≠ [] →
    ∀ r, Phrases (Expr.nestingIn args) (Expr.spellArguments args ++ ')' :: r) args (')' :: r)
  | [], _, hne => absurd rfl hne
  | [e], h, _ => fun r => by
    have hphrase := spells_spell e h.1 (')' :: r) (closes_cons (by decide) (by decide))
    simpa [Expr.spellArguments, Expr.nestingIn] using Phrases.one (hphrase.loosen e.binding_pos)
  | e :: e' :: es, h, _ => fun r => by
    have hothers := (row_spell (e' :: es) h.2 (List.cons_ne_nil e' es) r).of_trimStart
      (trimStart_blank _)
    have hphrase := spells_spell e h.1
      (',' :: ' ' :: (Expr.spellArguments (e' :: es) ++ ')' :: r))
      (closes_cons (by decide) (by decide))
    have hrow := Phrases.more (hphrase.loosen e.binding_pos) (token_mark rfl _) hothers
    simpa [Expr.spellArguments, Expr.nestingIn] using hrow

end

end Grammar

namespace Expr

variable {α : Type} [Scalar α]

mutual

/-- A legible expression agrees with itself. -/
theorem agrees_self [ReadsBack α] : ∀ e : Expr α, e.Legible → e.agrees e = true
  | .literal x, h => ReadsBack.same_self x h
  | .name _, _ => beq_self_eq_true _
  | .call f args, h => by
    rw [agrees, beq_self_eq_true, Bool.true_and]
    exact agreesIn_self args h.2
  | .not e, h => agrees_self e h
  | .binary _ a b, h => by
    rw [agrees, beq_self_eq_true, agrees_self a h.1, agrees_self b h.2]
    rfl

/-- A row of legible expressions agrees with itself. -/
theorem agreesIn_self [ReadsBack α] : ∀ es : List (Expr α), LegibleIn es →
    agreesIn es es = true
  | [], _ => rfl
  | e :: es, h => by
    rw [agreesIn, agrees_self e h.1, agreesIn_self es h.2]
    rfl

end

/-- What two expressions share where the values of their literals are all that may differ. -/
structure Alike (a b : Expr α) : Prop where
  /-- They bind as strongly. -/
  binding : b.binding = a.binding
  /-- They are nested as deeply. -/
  nesting : b.nesting = a.nesting
  /-- They have as many operators and calls. -/
  operators : b.operators = a.operators
  /-- They are both legible. -/
  legible : a.Legible → b.Legible

mutual

/-- Expressions that agree are alike. -/
theorem alike_of_agrees [ReadsBack α] : ∀ {a b : Expr α}, a.agrees b = true → a.Alike b
  | .literal x, b, h => by
    cases b with
    | literal y => exact ⟨rfl, rfl, rfl, fun hx => ReadsBack.isFinite_of_same x y hx h⟩
    | name _ | call _ _ | not _ | binary _ _ _ => cases h
  | .name m, b, h => by
    cases b with
    | name n =>
      have hmn : m = n := eq_of_beq h
      rw [hmn]
      exact ⟨rfl, rfl, rfl, id⟩
    | literal _ | call _ _ | not _ | binary _ _ _ => cases h
  | .call f as, b, h => by
    cases b with
    | call g bs =>
      simp only [agrees, Bool.and_eq_true, beq_iff_eq] at h
      obtain ⟨rfl, hargs⟩ := h
      obtain ⟨hempty, hnesting, hoperators, hlegible⟩ := alikeIn_of_agreesIn hargs
      exact ⟨rfl, by rw [nesting, nesting, hempty, hnesting],
        by rw [operators, operators, hoperators], fun hf => ⟨hf.1, hlegible hf.2⟩⟩
    | literal _ | name _ | not _ | binary _ _ _ => cases h
  | .not a, b, h => by
    cases b with
    | not b =>
      have hab : a.Alike b := alike_of_agrees h
      exact ⟨rfl, by rw [nesting, nesting, hab.binding, hab.nesting],
        by rw [operators, operators, hab.operators], hab.legible⟩
    | literal _ | name _ | call _ _ | binary _ _ _ => cases h
  | .binary o a b, e, h => by
    cases e with
    | binary p c d =>
      simp only [agrees, Bool.and_eq_true, beq_iff_eq] at h
      obtain ⟨⟨rfl, hac⟩, hbd⟩ := h
      have hl : a.Alike c := alike_of_agrees hac
      have hr : b.Alike d := alike_of_agrees hbd
      exact ⟨rfl, by rw [nesting, nesting, hl.binding, hl.nesting, hr.binding, hr.nesting],
        by rw [operators, operators, hl.operators, hr.operators],
        fun hab => ⟨hl.legible hab.1, hr.legible hab.2⟩⟩
    | literal _ | name _ | call _ _ | not _ => cases h

/-- Rows of expressions that agree are alike. -/
theorem alikeIn_of_agreesIn [ReadsBack α] : ∀ {as bs : List (Expr α)},
    agreesIn as bs = true → bs.isEmpty = as.isEmpty ∧ nestingIn bs = nestingIn as ∧
      operatorsIn bs = operatorsIn as ∧ (LegibleIn as → LegibleIn bs)
  | [], bs, h => by
    cases bs with
    | nil => exact ⟨rfl, rfl, rfl, id⟩
    | cons _ _ => cases h
  | a :: as, bs, h => by
    cases bs with
    | nil => cases h
    | cons b bs =>
      simp only [agreesIn, Bool.and_eq_true] at h
      have hab : a.Alike b := alike_of_agrees h.1
      obtain ⟨-, hnesting, hoperators, hlegible⟩ := alikeIn_of_agreesIn h.2
      exact ⟨rfl, by rw [nestingIn, nestingIn, hab.nesting, hnesting],
        by rw [operatorsIn, operatorsIn, hab.operators, hoperators],
        fun has => ⟨hab.legible has.1, hlegible has.2⟩⟩

end

/-- What is accepted is readable. -/
theorem readable_of_parse {t : List Char} {e : Expr α} (h : parse t = .ok e) : e.Readable := by
  obtain ⟨⟨d, hd, hderives⟩, hoperators⟩ := derives_of_parse h
  exact ⟨hderives.legible, Nat.le_trans hderives.nesting_le hd, hoperators⟩

variable [ReadsBack α]

/-- The canonical text of a legible tree is derived, and nested as deeply as the tree says. -/
theorem derives_spell {e : Expr α} (h : e.Legible) : Derives e.nesting e.spell e := by
  have hphrase := spells_spell e h [] ⟨rfl, by simp⟩
  rw [List.append_nil] at hphrase
  exact ⟨[], hphrase.loosen e.binding_pos, by simp⟩

/-- A readable tree is read back from its canonical text. -/
theorem parse_spell {e : Expr α} (h : e.Readable) : parse e.spell = .ok e :=
  parse_of_derives h.nesting_le (derives_spell h.legible) h.operators_le

/-- The canonical text of what was accepted is accepted as the same tree: it keeps both limits, and
it is nested no more deeply than any text of that tree. -/
theorem parse_spell_of_parse {t : List Char} {e : Expr Float} (h : parse t = .ok e) :
    parse e.spell = .ok e ∧ e.nesting ≤ maxNesting ∧ e.operators ≤ maxOperators ∧
      ∀ d, Derives d t e → e.nesting ≤ d := by
  have hreadable := readable_of_parse h
  exact ⟨parse_spell hreadable, hreadable.nesting_le, hreadable.operators_le,
    fun _ hd => hd.nesting_le⟩

/-- Needless parentheses are gone after one rendering, and a sign stays with its number. -/
theorem parse_spell_of_parse_negated_sum :
    ∃ e : Expr Float, parse "NOT ((a) + -1.5) < f(3)".toList = .ok e ∧
      e.spell = "NOT a + -1.5 < f(3)".toList ∧ parse e.spell = .ok e := by
  have hspell : (parse (α := Float) "NOT ((a) + -1.5) < f(3)".toList).toOption.map spell =
      some "NOT a + -1.5 < f(3)".toList := by decide +kernel
  cases hparse : parse (α := Float) "NOT ((a) + -1.5) < f(3)".toList with
  | error err =>
    rw [hparse] at hspell
    cases hspell
  | ok e =>
    rw [hparse] at hspell
    exact ⟨e, rfl, Option.some.inj hspell, (parse_spell_of_parse hparse).1⟩

/-- A tree is read back from its canonical text exactly if it is readable, be it up to the value of
its literals or as it is; and no two readable trees have one text. -/
theorem parse_spell_iff_readable :
    (∀ e : Expr Float, (parse e.spell = .ok e ↔ e.Readable) ∧
      ((∃ e', parse e.spell = .ok e' ∧ e'.agrees e = true) ↔ e.Readable)) ∧
    Set.InjOn spell {e : Expr Float | e.Readable} := by
  refine ⟨fun e => ⟨⟨readable_of_parse, parse_spell⟩, ?_, ?_⟩, ?_⟩
  · rintro ⟨e', hparse, hagrees⟩
    have hreadable := readable_of_parse hparse
    have halike := alike_of_agrees hagrees
    refine ⟨halike.legible hreadable.legible, ?_, ?_⟩
    · rw [halike.nesting]
      exact hreadable.nesting_le
    · rw [halike.operators]
      exact hreadable.operators_le
  · intro h
    exact ⟨e, parse_spell h, agrees_self e h.legible⟩
  · intro e he e' he' hspell
    have h := parse_spell he
    rw [hspell, parse_spell he'] at h
    cases h
    rfl

end Expr

end TradeRules
