import TradeRules.Command.Report
import TradeRules.Files.Prices
import TradeRules.Settings.Validation
import TradeRules.Proofs.Expr.Places
import TradeRules.Proofs.Number.ReadBack
import TradeRules.Proofs.Text.Lines

/-!
# What messages quote

Numbers and the fixed parts of a message stand on one line. So a message is one line exactly if
every text that it quotes is one (`JudgeError.isLine_message_iff`).
-/

namespace TradeRules

open Text Number

namespace Number.Binary64

/-- A double is written on one line if its finite magnitude is. -/
theorem lineFeed_notMem_spellWith {plus : List Char} {finite : Nat → List Char}
    (hplus : '\n' ∉ plus) (hfinite : ∀ w, '\n' ∉ finite w) (x : Float) :
    '\n' ∉ spellWith plus finite x := by
  unfold spellWith
  dsimp only
  split
  · decide
  · rw [List.mem_append, not_or]
    constructor
    · split
      · decide
      · exact hplus
    · split
      · decide
      · exact hfinite _

/-- A decimal is written on one line. -/
theorem lineFeed_notMem_spell (d : Decimal) : '\n' ∉ d.spell := by
  intro h
  rcases Decimal.isDigit_or_eq_of_mem_spell h with h | h <;> cases h

/-- A double with a number of places is written on one line. -/
theorem lineFeed_notMem_fixed (places : Nat) (x : Float) : '\n' ∉ fixed places x :=
  lineFeed_notMem_spellWith (by decide) (fun _ => lineFeed_notMem_spell _) x

end Number.Binary64

open Binary64

/-- A double is written on one line. -/
@[simp] theorem isLine_text (x : Float) : IsLine (Scalar.text x) :=
  isLine_ofList.2 (lineFeed_notMem_spellWith (by decide) (fun _ => lineFeed_notMem_spell _) x)

namespace Report

@[simp] theorem isLine_money (x : Float) : IsLine (money x) :=
  isLine_ofList.2 (lineFeed_notMem_fixed 2 x)

@[simp] theorem isLine_signedMoney (x : Float) : IsLine (signedMoney x) :=
  isLine_ofList.2 (lineFeed_notMem_spellWith (by decide) (fun _ => lineFeed_notMem_spell _) x)

end Report

/-- What the wording of a parse fault holds of its own text, and the mark that it misses. -/
def ParseFault.shown : ParseFault → List Char
  | .expectedMark mark found => mark :: found.quoted
  | fault => fault.quoted

/-- The texts that the message of a parse error quotes. -/
def ParseError.quoted (e : ParseError) : List String := [String.ofList e.fault.shown]

/-- The texts that the message of an offence against the vocabulary quotes. -/
def VocabularyError.quoted {α : Type} : VocabularyError α → List String
  | .unknownFunction f | .wrongArity f _ | .nonLiteralArgument f | .nonIntegerPeriod f _
  | .nonPositivePeriod f _ => [f]
  | .unknownProperty n => [n]

/-- The texts that the message of a context error quotes. -/
def ContextError.quoted : ContextError → List String
  | .emptySeries symbol | .malformedBar symbol _ => [symbol]

/-- The texts that the message of an evaluation error quotes. -/
def EvalError.quoted {α : Type} : EvalError α → List String
  | .unknownName n => [n]
  | .invalidCall f reason => f :: reason.quoted
  | .typeMismatch _ _ _ | .divisionByZero | .unsupportedResult _ => []

/-- The texts that the message of a sizing error quotes. -/
def SizingError.quoted {α : Type} : SizingError α → List String
  | .invalidSize _ size => [size]
  | .cashUnavailable reason => [reason]
  | .percentageOutOfRange _ | .missingCash | .nonPositivePrice _ | .nonNumericResult _
  | .nonPositive _ => []

/-- The texts that the message of a rule error quotes. -/
def RuleError.quoted {α : Type} : RuleError α → List String
  | .parse e => e.quoted
  | .vocabulary e => e.quoted
  | .context e => e.quoted
  | .eval e => e.quoted
  | .sizing e => e.quoted

/-- The texts that the message of a fault in a price file quotes. -/
def PriceFault.quoted : PriceFault → List String
  | .unreadable path reason => [path, reason]
  | .missingColumn _ column => [column]
  | .invalidMoment _ text => [text]
  | .invalidNumber _ column text _ => [column, text]
  | .invalidSymbol | .row _ _ => []

/-- The texts that the message of a fetch error quotes. -/
def FetchError.quoted : FetchError → List String
  | .noData symbol => [symbol]
  | .failed symbol reason => [symbol, reason]

/-- The texts that the message of a source's error quotes: one that is known by its wording alone is
that wording. -/
def SourceError.quoted : SourceError → List String
  | .fetch e => e.quoted
  | .other wording => [wording]

/-- The texts that the message of an error in a batch quotes. -/
def JudgeError.quoted {α : Type} : JudgeError α → List String
  | .fetch e => e.quoted
  | .rule e => e.quoted

section Words

@[simp] theorem isLine_push {s : String} {c : Char} :
    IsLine (s.push c) ↔ IsLine s ∧ c ≠ '\n' := by
  simp [IsLine, not_or, eq_comm]

@[simp] theorem BinaryOp.isLine_symbol (op : BinaryOp) : IsLine op.symbol := by
  cases op with
  | or | and => decide
  | compare c => cases c <;> decide
  | compute a => cases a <;> decide

@[simp] theorem Expectation.isLine_text (e : Expectation) : IsLine e.text := by
  cases e <;> decide

@[simp] theorem ValueKind.isLine_name (k : ValueKind) : IsLine k.name := by
  cases k <;> decide

@[simp] theorem Value.isLine_text (v : Value Float) : IsLine v.text := by
  cases v with
  | number x => exact TradeRules.isLine_text x
  | truth b => exact ValueKind.isLine_name .truth
  | absent => exact ValueKind.isLine_name .absent

@[simp] theorem BarField.isLine_name (f : BarField) : IsLine f.name := by
  cases f <;> decide

@[simp] theorem Sizing.isLine_name (s : Sizing) : IsLine s.name := by
  cases s <;> decide

@[simp] theorem NumeralFault.isLine_message (f : NumeralFault) : IsLine f.message := by
  cases f <;> decide

@[simp] theorem Action.isLine_name (a : Action) : IsLine a.name := by
  cases a <;> decide

@[simp] theorem Row.isLine_complaint (r : Row) (fault : RowFault) : IsLine (r.complaint fault) := by
  cases fault <;> unfold complaint <;> simp +decide [place]

end Words

/-- What was found is shown on one line exactly if it is one. -/
theorem Found.isLine_spell_iff (f : Found) : IsLine f.spell ↔ '\n' ∉ f.quoted := by
  cases f <;> simp +decide [spell, quoted, isLine_ofList]

theorem ParseFault.isLine_message_iff (f : ParseFault) : IsLine f.message ↔ '\n' ∉ f.shown := by
  cases f <;> unfold message <;>
    simp +decide [shown, quoted, isLine_ofList, Found.isLine_spell_iff, eq_comm]

theorem ParseError.isLine_message_iff (e : ParseError) :
    IsLine e.message ↔ ∀ t ∈ e.quoted, IsLine t := by
  unfold message
  simp +decide [quoted, isLine_ofList, ParseFault.isLine_message_iff]

theorem VocabularyError.isLine_message_iff (v : VocabularyError Float) :
    IsLine v.message ↔ ∀ t ∈ v.quoted, IsLine t := by
  cases v <;> unfold message <;> simp +decide [quoted]

theorem ContextError.isLine_message_iff (e : ContextError) :
    IsLine e.message ↔ ∀ t ∈ e.quoted, IsLine t := by
  cases e <;> unfold message <;> simp +decide [quoted]

theorem EvalError.isLine_message_iff (e : EvalError Float) :
    IsLine e.message ↔ ∀ t ∈ e.quoted, IsLine t := by
  cases e <;> unfold message <;> simp +decide [quoted, VocabularyError.isLine_message_iff]

theorem SizingError.isLine_message_iff (e : SizingError Float) :
    IsLine e.message ↔ ∀ t ∈ e.quoted, IsLine t := by
  cases e <;> unfold message <;> simp +decide [quoted]

theorem PriceFault.isLine_message_iff (f : PriceFault) :
    IsLine f.message ↔ ∀ t ∈ f.quoted, IsLine t := by
  cases f <;> unfold message <;> simp +decide [quoted]

theorem FetchError.isLine_message_iff (e : FetchError) :
    IsLine e.message ↔ ∀ t ∈ e.quoted, IsLine t := by
  cases e <;> unfold message <;> simp +decide [quoted]

theorem SourceError.isLine_message_iff (e : SourceError) :
    IsLine e.message ↔ ∀ t ∈ e.quoted, IsLine t := by
  cases e with
  | fetch e => exact e.isLine_message_iff
  | other wording => exact List.forall_mem_singleton.symm

theorem RuleError.isLine_message_iff (e : RuleError Float) :
    IsLine e.message ↔ ∀ t ∈ e.quoted, IsLine t := by
  cases e with
  | parse e => exact e.isLine_message_iff
  | context e => exact e.isLine_message_iff
  | vocabulary e =>
    have hlabel : IsLine "invalid expression: " := by decide
    exact (isLine_append.trans (and_iff_right hlabel)).trans e.isLine_message_iff
  | eval e =>
    have hlabel : IsLine "evaluation failed: " := by decide
    exact (isLine_append.trans (and_iff_right hlabel)).trans e.isLine_message_iff
  | sizing e =>
    have hlabel : IsLine "sizing failed: " := by decide
    exact (isLine_append.trans (and_iff_right hlabel)).trans e.isLine_message_iff

/-- The message of an error in a batch is one line exactly if every text that it quotes is one. -/
theorem JudgeError.isLine_message_iff (e : JudgeError Float) :
    IsLine e.message ↔ ∀ t ∈ e.quoted, IsLine t := by
  cases e with
  | fetch e => exact e.isLine_message_iff
  | rule e => exact e.isLine_message_iff

/-- The texts that are quoted where a verdict is reported. -/
def Verdict.quoted {α : Type} : Verdict α → List String
  | .ok _ => []
  | .error e => e.quoted

/-- The texts that are quoted where an entry is reported. -/
def Entry.quoted {α : Type} (e : Entry α) : List String :=
  e.rule.id :: e.rule.symbol :: e.verdict.quoted

namespace Report

/-- What is reported of an entry, without the line feed behind it. -/
def entryText (e : Entry Float) : String :=
  column 12 e.rule.id ++ " " ++ column 8 e.rule.symbol ++ " " ++ status e.rule e.verdict

/-- What is reported of a tally, without the line feed behind it. -/
def summaryText (t : Tally) : String :=
  "triggered: " ++ toString t.fired ++ ", not triggered: " ++ toString t.idle ++
    ", errors: " ++ toString t.failed

/-- Blanks behind a text make no lines of it. -/
@[simp] theorem isLine_column_iff (width : Nat) (s : String) :
    IsLine (column width s) ↔ IsLine s := by
  simp [column, isLine_ofList, List.mem_replicate]

/-- A status is one line exactly if every text that its verdict quotes is one. -/
@[simp] theorem isLine_status_iff (rule : Rule) (v : Verdict Float) :
    IsLine (status rule v) ↔ ∀ t ∈ v.quoted, IsLine t := by
  have herror : IsLine "ERROR " := by decide
  have hidle : IsLine "not triggered @ " := by decide
  rcases v with e | price | ⟨shares, price⟩
  · exact (isLine_append.trans (and_iff_right herror)).trans e.isLine_message_iff
  · exact iff_of_true (isLine_append.2 ⟨hidle, isLine_money price⟩) (List.forall_mem_nil _)
  · refine iff_of_true ?_ (List.forall_mem_nil _)
    unfold status
    dsimp only
    simp only [isLine_append, isLine_money, isLine_signedMoney, Action.isLine_name,
      Nat.toString_eq_repr, isLine_repr]
    decide

/-- An entry is reported on one line exactly if every text that it quotes is one. -/
theorem isLine_entryText_iff (e : Entry Float) :
    IsLine (entryText e) ↔ ∀ t ∈ e.quoted, IsLine t := by
  have hblank : IsLine " " := by decide
  simp [entryText, Entry.quoted, hblank, and_assoc]

/-- A tally is reported on one line. -/
theorem isLine_summaryText (t : Tally) : IsLine (summaryText t) := by
  simp +decide [summaryText]

end Report

end TradeRules
