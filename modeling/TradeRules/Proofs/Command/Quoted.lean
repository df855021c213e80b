import TradeRules.Proofs.Batch.Fetch
import TradeRules.Proofs.Batch.Ledger
import TradeRules.Proofs.Command.Stages
import TradeRules.Proofs.Command.Wording
import TradeRules.Proofs.Expr.Agreement
import TradeRules.Proofs.Expr.Canonical
import TradeRules.Proofs.Files.Rows

/-!
# What an evaluation quotes

Whatever an evaluation quotes comes from the texts of a rule, from the price file of its symbol or
from the path of that file. A fault of an expression quotes a part of its text, an offence against
the vocabulary quotes a name in it, and an expression within the vocabulary fails without quoting
anything. So where no line feed stands in any of these sources, every text that is quoted is one
line (`Command.WithoutBreaks.isLine_of_mem_quoted`).
-/

namespace TradeRules

open Text Number

/-- A fault that fits a text without line feeds shows none. -/
theorem ParseFault.Fits.lineFeed_notMem_shown {f : ParseFault} {rest : List Char}
    (hfits : f.Fits rest) (h : '\n' ∉ rest) : '\n' ∉ f.shown := by
  have hquoted : '\n' ∉ f.quoted := fun hmem => h (hfits.quoted.subset hmem)
  cases f with
  | expectedMark mark found =>
    rw [ParseFault.shown, List.mem_cons, not_or]
    refine ⟨?_, hquoted⟩
    rintro rfl
    cases hfits.missed _ _ rfl
  | _ => exact hquoted

/-- A name is one line. -/
theorem Grammar.IsName.isLine {n : String} (h : Grammar.IsName n.toList) : IsLine n := by
  intro hmem
  cases List.all_eq_true.1 h.2.1 '\n' hmem

section Reading

variable {text : String}

/-- What is wrong with a text on one line is told on one line. -/
theorem ParseError.isLine_quoted {err : ParseError} (htext : IsLine text)
    (h : (Expr.ofString text : Except ParseError (Expr Float)) = .error err) :
    ∀ t ∈ err.quoted, IsLine t := by
  obtain ⟨before, after, hplace, -, -, hfits⟩ := Expr.exists_place_of_parse h
  have hafter : '\n' ∉ after := by
    intro hmem
    exact htext (hplace ▸ List.mem_append_right before hmem)
  rw [ParseError.quoted, List.forall_mem_singleton, isLine_ofList]
  exact hfits.lineFeed_notMem_shown hafter

/-- An offence of an expression whose names are names quotes one of them. -/
theorem VocabularyError.isLine_quoted {e : Expr Float} {v : VocabularyError Float}
    (hlegible : e.Legible) (h : e.validate = .error v) : ∀ t ∈ v.quoted, IsLine t := by
  induction e using Expr.evalInduction with
  | literal x => cases h
  | name n =>
    rw [Expr.validate] at h
    split at h
    · cases h
    · cases h
      exact List.forall_mem_singleton.2 (Grammar.IsName.isLine hlegible)
  | call f args =>
    have hname : IsLine f := Grammar.IsName.isLine hlegible.1
    rw [Expr.validate] at h
    split at h
    · cases h
    · rename_i reason hcall
      cases h
      cases resolveCall_eq_error_iff.1 hcall <;> exact List.forall_mem_singleton.2 hname
  | not e ih => exact ih hlegible h
  | binary op l r ihl ihr =>
    rcases Expr.validate_binary_eq_error_iff.1 h with hl | ⟨-, hr⟩
    · exact ihl hlegible.1 hl
    · exact ihr hlegible.2 hr

/-- An expression that is read from a text on one line, or not, quotes lines. -/
theorem RuleError.isLine_quoted_of_readExpr {e : RuleError Float} (htext : IsLine text)
    (h : (readExpr text : Except (RuleError Float) (Expr Float)) = .error e) :
    ∀ t ∈ e.quoted, IsLine t := by
  unfold readExpr at h
  split at h
  · rename_i err hread
    cases h
    exact err.isLine_quoted htext hread
  · rename_i expr hread
    split at h
    · rename_i v hvalid
      cases h
      exact v.isLine_quoted (Expr.readable_of_parse hread).legible hvalid
    · cases h

/-- An evaluation of an expression within the vocabulary fails without quoting anything. -/
theorem EvalError.quoted_of_readExpr {e : Expr Float} {c : Context Float} {err : EvalError Float}
    (hread : readExpr text = .ok e) (h : e.eval c = .error err) : err.quoted = [] := by
  obtain ⟨-, hvalid⟩ := Rule.readExpr_eq_ok_iff.1 hread
  rcases Expr.ofOperator_or_blames_of_eval h with hoperator | ⟨v, hv, -⟩
  · cases hoperator <;> rfl
  · rw [hvalid] at hv
    cases hv

end Reading

namespace Rule

variable {r : Rule} {s : Series Float} {c : Context Float} {e : RuleError Float}

/-- A context that is missing is missing for the series. -/
theorem quoted_of_context {err : ContextError} (h : Context.of s = .error err) :
    err.quoted = [s.symbol] := by
  unfold Context.of at h
  split at h
  · cases h
    rfl
  · split at h
    · cases h
      rfl
    · cases h

/-- A rule that comes to no decision on whether it fires quotes its condition or its symbol. -/
theorem isLine_quoted_of_firing (hcondition : IsLine r.condition) (hsymbol : IsLine s.symbol)
    (h : r.firing s = .error e) : ∀ t ∈ e.quoted, IsLine t := by
  unfold firing at h
  split at h
  · rename_i hread
    cases h
    exact RuleError.isLine_quoted_of_readExpr hcondition hread
  · rename_i expr hread
    split at h
    · rename_i err hcontext
      cases h
      rw [RuleError.quoted, quoted_of_context hcontext]
      exact List.forall_mem_singleton.2 hsymbol
    · rename_i c hcontext
      split at h
      · rename_i err hfires
        cases h
        have hnone : err.quoted = [] := by
          rcases Expr.fires_eq_error_iff.1 hfires with heval | ⟨-, rfl⟩
          · exact EvalError.quoted_of_readExpr hread heval
          · rfl
        rw [RuleError.quoted, hnone]
        exact List.forall_mem_nil _
      · cases h

/-- A size that is given as an expression fails without quoting anything. -/
theorem quoted_of_sizeOfValue {v : Value Float} {err : SizingError Float}
    (h : sizeOfValue v = .error err) : err.quoted = [] := by
  unfold sizeOfValue at h
  split at h
  · split at h
    · split at h
      · cases h
      · cases h
        rfl
    · cases h
      rfl
  · cases h
    rfl

/-- A percentage of some cash fails without quoting anything. -/
theorem quoted_of_sharesForPercentage {percent : Float} {cash : Option Float}
    {err : SizingError Float} (h : sharesForPercentage c percent cash = .error err) :
    err.quoted = [] := by
  unfold sharesForPercentage at h
  split at h
  · cases h
    rfl
  · split at h
    · cases h
      rfl
    · split at h
      · cases h
        rfl
      · cases h

/-- A trade that gets no size quotes the size of its rule, if anything. -/
theorem isLine_quoted_of_computeSize {sizing : Sizing} {size : String} {cash : Option Float}
    (hsize : IsLine size) (h : computeSize c sizing size cash = .error e) :
    ∀ t ∈ e.quoted, IsLine t := by
  -- What is computed of a size that was read quotes nothing.
  have hsilent : ∀ {result : Except (SizingError Float) Float},
      (∀ err, result = .error err → err.quoted = []) →
      result.mapError RuleError.sizing = .error e → ∀ t ∈ e.quoted, IsLine t := by
    rintro (err | x) hquoted hresult
    · cases hresult
      rw [RuleError.quoted, hquoted err rfl]
      exact List.forall_mem_nil _
    · cases hresult
  cases sizing with
  | expression =>
    simp only [computeSize] at h
    split at h
    · rename_i hread
      cases h
      exact RuleError.isLine_quoted_of_readExpr hsize hread
    · rename_i expr hread
      split at h
      · rename_i err heval
        cases h
        rw [RuleError.quoted, EvalError.quoted_of_readExpr hread heval]
        exact List.forall_mem_nil _
      · exact hsilent (fun _ => quoted_of_sizeOfValue) h
  | fixed =>
    simp only [computeSize] at h
    split at h
    · cases h
      exact List.forall_mem_singleton.2 hsize
    · cases h
  | percentage =>
    simp only [computeSize] at h
    split at h
    · cases h
      exact List.forall_mem_singleton.2 hsize
    · exact hsilent (fun _ => quoted_of_sharesForPercentage) h

/-- A trade that fails quotes the size of its rule or the reason why there is no cash. -/
theorem isLine_quoted_of_trade {cash : Except (SizingError Float) (Option Float)}
    (hsize : IsLine r.size) (hcash : ∀ err, cash = .error err → ∀ t ∈ err.quoted, IsLine t)
    (h : r.trade c cash = .error e) : ∀ t ∈ e.quoted, IsLine t := by
  unfold trade at h
  split at h
  · rename_i err
    cases h
    exact hcash err rfl
  · split at h
    · rename_i hcompute
      cases h
      exact isLine_quoted_of_computeSize hsize hcompute
    · dsimp only at h
      split at h
      · cases h
        exact List.forall_mem_nil _
      · cases h

/-- A rule whose condition, size and symbol are lines fails quoting lines, if there is a line to say
why there is no cash. -/
theorem isLine_quoted_of_evaluate {cash : Except (SizingError Float) (Option Float)}
    (hcondition : IsLine r.condition) (hsize : IsLine r.size) (hsymbol : IsLine s.symbol)
    (hcash : ∀ err, cash = .error err → ∀ t ∈ err.quoted, IsLine t)
    (h : Id.run (r.evaluate s (pure cash)) = .error e) : ∀ t ∈ e.quoted, IsLine t := by
  unfold evaluate at h
  split at h
  · rename_i err hfiring
    cases h
    exact isLine_quoted_of_firing hcondition hsymbol hfiring
  · cases h
  · exact isLine_quoted_of_trade hsize hcash h

end Rule

namespace Prices

/-- What there is to quote of a price file: the reason why it cannot be read, or its cells. -/
structure AnswersLines (answer : Except ReadFault (List UInt8)) : Prop where
  /-- The reason is a line. -/
  reason : ∀ fault, answer = .error fault → IsLine fault.message
  /-- The cells are lines. -/
  cells : ∀ bytes t r cells, answer = .ok bytes → Table.read? bytes = some t → r ∈ t.rows →
    t.cells r = .ok cells → ∀ text ∈ cells, IsLine text

/-- A fault in a column quotes the cell there, if anything. -/
theorem isLine_quoted_of_columnFault? {line : Nat} {cells : List String} {c : PriceColumn}
    {fault : PriceFault} (hcells : ∀ text ∈ cells, IsLine text)
    (h : columnFault? line cells c = some fault) : ∀ t ∈ fault.quoted, IsLine t := by
  have hname : IsLine c.name := by
    cases c with
    | time => decide
    | number field => exact field.isLine_name
  unfold columnFault? at h
  split at h
  · cases h
    exact List.forall_mem_singleton.2 hname
  · rename_i text hcell
    have htext : IsLine text := hcells text (List.mem_of_getElem? hcell)
    cases c with
    | time =>
      dsimp only at h
      split at h
      · cases h
        exact List.forall_mem_singleton.2 htext
      · cases h
    | number field =>
      dsimp only at h
      split at h
      · cases h
        exact List.forall_mem_cons.2 ⟨hname, List.forall_mem_singleton.2 htext⟩
      · cases h

/-- Rows that hold no bars quote their cells, if anything. -/
theorem isLine_quoted_of_barsOfRows {t : Table} {fault : PriceFault}
    (hcells : ∀ r ∈ t.rows, ∀ cells, t.cells r = .ok cells → ∀ text ∈ cells, IsLine text)
    (h : barsOfRows t t.rows = .error fault) : ∀ text ∈ fault.quoted, IsLine text := by
  obtain ⟨before, r, after, hrows, hoffends, -⟩ := barsOfRows_eq_error_iff.1 h
  have hr : r ∈ t.rows := hrows ▸ List.mem_append_right before List.mem_cons_self
  cases hoffends with
  | row h => exact List.forall_mem_nil _
  | column hread hfault _ => exact isLine_quoted_of_columnFault? (hcells r hr _ hread) hfault

variable {symbol path : String} {days : Nat} {answer : Except ReadFault (List UInt8)}
  {e : FetchError}

/-- A history that is not to be had is told of on one line where the symbol, the path and what the
file holds are lines. -/
theorem isLine_quoted_of_history (hsymbol : IsLine symbol) (hpath : IsLine path)
    (hanswer : AnswersLines answer) (h : history symbol path days answer = .error e) :
    ∀ t ∈ e.quoted, IsLine t := by
  have hfailed : ∀ fault : PriceFault, (∀ t ∈ fault.quoted, IsLine t) →
      ∀ t ∈ (FetchError.failed symbol fault.message).quoted, IsLine t := fun fault hfault =>
    List.forall_mem_cons.2
      ⟨hsymbol, List.forall_mem_singleton.2 (fault.isLine_message_iff.2 hfault)⟩
  unfold history at h
  split at h
  · cases h
    exact List.forall_mem_singleton.2 hsymbol
  · rename_i fault _
    cases h
    refine hfailed (.unreadable path fault.message) ?_
    exact List.forall_mem_cons.2 ⟨hpath, List.forall_mem_singleton.2 (hanswer.reason fault rfl)⟩
  · rename_i bytes
    split at h
    · rename_i fault hbars
      cases h
      refine hfailed fault ?_
      unfold bars at hbars
      split at hbars
      · cases hbars
        have hreason : IsLine notUtf8 := by decide
        exact List.forall_mem_cons.2 ⟨hpath, List.forall_mem_singleton.2 hreason⟩
      · split at hbars
        · cases hbars
        · rename_i t htable
          exact isLine_quoted_of_barsOfRows
            (fun r hr cells => hanswer.cells bytes t r cells rfl htable hr) hbars
    · cases h
      exact List.forall_mem_singleton.2 hsymbol
    · cases h

/-- The path of a file is a line where the directory and the symbol are. -/
theorem isLine_path {directory : String} (hdirectory : IsLine directory) (hsymbol : IsLine symbol) :
    IsLine (Prices.path directory symbol) := by
  have hfile : IsLine (symbol ++ ".csv") := isLine_append.2 ⟨hsymbol, by decide⟩
  unfold Prices.path joinPath
  split
  · exact hfile
  · split
    · exact isLine_append.2 ⟨hdirectory, hfile⟩
    · exact isLine_append.2 ⟨isLine_append.2 ⟨hdirectory, by decide⟩, hfile⟩

/-- A history is that of the symbol that it was read for. -/
theorem symbol_of_history {s : Series Float} (h : history symbol path days answer = .ok s) :
    s.symbol = symbol := by
  unfold history at h
  split at h
  · cases h
  · cases h
  · split at h
    · cases h
    · cases h
    · cases h
      rfl

variable {read : FileReader Id} {directory : String} {request : Request}

/-- A history that is fetched is that of the symbol that was asked for. -/
theorem symbol_of_fetch {s : Series Float} (h : Id.run (fetch read directory request) = .ok s) :
    s.symbol = request.symbol := by
  unfold fetch at h
  split at h
  · exact symbol_of_history h
  · cases h

/-- A fetch that fails is told of on one line where the directory, the symbol and what the file
holds are lines. -/
theorem isLine_quoted_of_fetch (hdirectory : IsLine directory) (hsymbol : IsLine request.symbol)
    (hanswer : AnswersLines (Id.run (read (Prices.path directory request.symbol))))
    (h : Id.run (fetch read directory request) = .error e) : ∀ t ∈ e.quoted, IsLine t := by
  unfold fetch at h
  split at h
  · exact isLine_quoted_of_history hsymbol (isLine_path hdirectory hsymbol) hanswer h
  · cases h
    have hreason : IsLine PriceFault.invalidSymbol.message := by decide
    exact List.forall_mem_cons.2 ⟨hsymbol, List.forall_mem_singleton.2 hreason⟩

end Prices

namespace Command

variable {read : FileReader Id} {s : Settings} {data : Option String} {rules : List Rule}

/-- The history that an evaluation judges the rules on a symbol on, or the reason why there is
none. -/
def historyOf (read : FileReader Id) (s : Settings) (data : Option String) (rules : List Rule)
    (symbol : String) : Except SourceError (Series Float) :=
  (Id.run (Prices.fetch read (s.directoryFor data)
    (Batch.request Float s.batch rules symbol))).mapError .fetch

/-- The answer of the accounts of an evaluation about a user. -/
def cashOf (s : Settings) (user : String) : Except String Float :=
  (s.availableCash user).mapError CashError.message

/-- What is fetched for an evaluation. -/
theorem fetch_source (read : FileReader Id) (s : Settings) (data : Option String)
    (rules : List Rule) : Batch.fetch (source read (s.directoryFor data)) s.batch rules =
      pure ((Batch.symbols rules).map (historyOf read s data rules)) := by
  have hpure := Batch.fetch_pure (m := Id)
    (fun r => Id.run (source read (s.directoryFor data) r)) s.batch rules
  refine hpure.trans (congrArg _ (List.map_congr_left fun symbol _ => ?_))
  unfold source historyOf
  rw [Id.run_bind]
  cases Id.run (Prices.fetch read (s.directoryFor data) (Batch.request Float s.batch rules symbol))
    <;> rfl

/-- The entries of an evaluation are those of the rules that take part, judged on the history of
their symbol and on the answers about some users. -/
theorem exists_entries_evaluation (read : FileReader Id) (s : Settings) (data : Option String)
    (rules : List Rule) :
    ∃ users : List String, (evaluation read s data rules).entries =
      (Batch.paired rules (historyOf read s data rules)).map
        (Batch.entryOn (Ledger.answers (users.map fun user => (user, cashOf s user)))) := by
  have hrun : evaluation read s data rules = Id.run (Batch.judgeAnswers
      (fun user => pure (cashOf s user)) rules
        ((Batch.symbols rules).map (historyOf read s data rules))) := by
    unfold evaluation
    rw [Batch.run_eq, fetch_source, pure_bind]
    rfl
  refine ⟨Batch.payers (Batch.paired rules (historyOf read s data rules)), ?_⟩
  rw [hrun, Batch.judgeAnswers_eq, Batch.cases_groups, Id.run_map, Batch.entries_outcomeOn,
    List.idRun_mapM]
  rfl

/-- Where cash is missing for a rule, that is because of its user. -/
theorem eq_cashUnavailable_of_fundsOf {users : List String} {rule : Rule} {err : SizingError Float}
    (h : Ledger.fundsOf (Ledger.answers (users.map fun user => (user, cashOf s user))) rule =
      .error err) : err = .cashUnavailable (CashError.message ⟨rule.user⟩) := by
  unfold Ledger.fundsOf at h
  split at h
  · cases hanswer : Ledger.answers (users.map fun user => (user, cashOf s user)) rule.user with
    | none =>
      rw [hanswer] at h
      cases h
    | some answer =>
      rw [hanswer] at h
      obtain ⟨before, after, hcalls, -⟩ := List.lookup_eq_some_iff.1 hanswer
      have hmem : (rule.user, answer) ∈ users.map fun user => (user, cashOf s user) := by
        rw [hcalls]
        exact List.mem_append_right before List.mem_cons_self
      obtain ⟨user, -, hpair⟩ := List.mem_map.1 hmem
      cases hpair
      unfold cashOf Settings.availableCash at h
      split at h <;> cases h
      rfl
  · cases h
  · cases h

/-- An entry of an evaluation is that of a rule that takes part, judged on the history of its
symbol; if there is no cash for it, that is because of its user. -/
theorem exists_verdict_of_mem_evaluation {e : Entry Float}
    (he : e ∈ (evaluation read s data rules).entries) :
    e.rule ∈ Batch.active rules ∧ ∃ cash,
      (∀ err, cash = .error err → err = .cashUnavailable (CashError.message ⟨e.rule.user⟩)) ∧
      e.verdict = Batch.verdict cash (e.rule, historyOf read s data rules e.rule.symbol) := by
  obtain ⟨users, hentries⟩ := exists_entries_evaluation read s data rules
  rw [hentries, List.mem_map] at he
  obtain ⟨⟨rule, history⟩, hc, rfl⟩ := he
  obtain ⟨hactive, rfl⟩ : rule ∈ Batch.active rules ∧
      history = historyOf read s data rules rule.symbol := Batch.mem_paired.1 hc
  exact ⟨hactive, _, fun _ => eq_cashUnavailable_of_fundsOf, rfl⟩

/-- There is no line feed in what an evaluation may quote: in the name of the directory of prices,
in the texts of the rules that take part, and in the price files of their symbols. -/
structure WithoutBreaks (read : FileReader Id) (directory : String) (rules : List Rule) : Prop where
  /-- The directory is a line. -/
  source : IsLine directory
  /-- The rules hold lines. -/
  texts : ∀ r ∈ Batch.active rules,
    IsLine r.id ∧ IsLine r.user ∧ IsLine r.symbol ∧ IsLine r.condition ∧ IsLine r.size
  /-- The price files hold lines. -/
  prices : ∀ r ∈ Batch.active rules,
    Prices.AnswersLines (Id.run (read (Prices.path directory r.symbol)))

/-- Without line feeds in what it may quote, an evaluation quotes lines. -/
theorem WithoutBreaks.isLine_of_mem_quoted
    (h : WithoutBreaks read (s.directoryFor data) rules) {e : Entry Float}
    (he : e ∈ (evaluation read s data rules).entries) : ∀ t ∈ e.quoted, IsLine t := by
  obtain ⟨hactive, cash, hcash, hverdict⟩ := exists_verdict_of_mem_evaluation he
  obtain ⟨hid, huser, hsymbol, hcondition, hsize⟩ := h.texts e.rule hactive
  have hreason : ∀ err, cash = .error err → ∀ t ∈ err.quoted, IsLine t := by
    rintro err herr
    rw [hcash err herr]
    exact List.forall_mem_singleton.2 (isLine_append.2 ⟨by decide, huser⟩)
  refine List.forall_mem_cons.2 ⟨hid, List.forall_mem_cons.2 ⟨hsymbol, ?_⟩⟩
  rw [hverdict]
  unfold historyOf
  cases hfetch : Id.run (Prices.fetch read (s.directoryFor data)
    (Batch.request Float s.batch rules e.rule.symbol)) with
  | error err => exact Prices.isLine_quoted_of_fetch h.source hsymbol (h.prices _ hactive) hfetch
  | ok series =>
    have hseries : series.symbol = e.rule.symbol := Prices.symbol_of_fetch hfetch
    have hjudge : Batch.verdict cash (e.rule, (Except.ok series).mapError .fetch) =
        (Id.run (e.rule.evaluate series (pure cash))).mapError .rule := rfl
    rw [hjudge]
    cases hrule : Id.run (e.rule.evaluate series (pure cash)) with
    | error err =>
      exact Rule.isLine_quoted_of_evaluate hcondition hsize (hseries ▸ hsymbol) hreason hrule
    | ok d => exact List.forall_mem_nil _

end Command

end TradeRules
