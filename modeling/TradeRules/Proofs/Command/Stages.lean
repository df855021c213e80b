import TradeRules.Command.Run
import TradeRules.Proofs.Batch.Accounting
import TradeRules.Proofs.Command.ReportLines
import TradeRules.Proofs.Text.Encoding

/-!
# How commands end

A command goes through stages, and the first one that fails decides its exit code (`Command.Ends`).
Nothing is printed before the last stage that can fail, so whatever fails leaves the standard output
empty; and an evaluation that got its settings and its rules does not fail any more, whatever the
price files hold and whatever becomes of its rules: it prints a line that tells of each of them, and
their tally (`Command.run_ends_at_first_failure`).
-/

namespace TradeRules

/-- What has to be valid in settings: the directory of prices only where no other one is given, and
the rest in any case. -/
def Settings.validateFor (s : Settings) (data : Option String) : Except SettingsError Unit := do
  if data.isNone then s.validatePath
  s.validateBatch

/-- The directory of prices: the given one, or else that of the settings. -/
def Settings.directoryFor (s : Settings) (data : Option String) : String :=
  data.getD (Text.trimmed ((s.get? "data" "path").getD ""))

namespace Command

/-- The request of a history for enough bars to settle an indicator. -/
def historyRequest (symbol : String) (i : Indicator) (limit : Nat) : Request :=
  ⟨symbol, min (limit + i.settlingBars) Number.maxCount⟩

/-- The outcome of an evaluation that got its settings and its rules. -/
def evaluation (read : FileReader Id) (s : Settings) (data : Option String) (rules : List Rule) :
    Outcome Float :=
  Id.run (Batch.run (source read (s.directoryFor data))
    (fun user => pure ((s.availableCash user).mapError CashError.message)) s.batch rules)

/-- The exit codes of a command. -/
def exitCodes : Command → List Nat
  | .evaluate _ _ _ => [0, 2, 4]
  | .check _ => [0, 4]
  | .history _ _ _ _ => [0, 3, 4, 5]

/-- How a command ends on some files: with the exit code of the first stage that fails, or with zero
after all of them. -/
inductive Ends (read : FileReader Id) : Command → Nat → Prop where
  /-- The settings cannot be loaded. -/
  | settingsUnloaded {config rules data e}
    (h : settingsOfAnswer config (Id.run (read config)) = .error e) :
    Ends read (.evaluate config rules data) 2
  /-- The settings are loaded but not valid. -/
  | settingsInvalid {config rules data s e}
    (hload : settingsOfAnswer config (Id.run (read config)) = .ok s)
    (h : s.validateFor data = .error e) : Ends read (.evaluate config rules data) 2
  /-- The settings are valid, but the rules cannot be loaded. -/
  | rulesUnloaded {config rules data s e}
    (hload : settingsOfAnswer config (Id.run (read config)) = .ok s)
    (hvalid : s.validateFor data = .ok ()) (h : Id.run (RuleFile.load read rules) = .error e) :
    Ends read (.evaluate config rules data) 4
  /-- The settings are valid and the rules are loaded. -/
  | evaluated {config rules data s loaded}
    (hload : settingsOfAnswer config (Id.run (read config)) = .ok s)
    (hvalid : s.validateFor data = .ok ())
    (h : Id.run (RuleFile.load read rules) = .ok loaded) : Ends read (.evaluate config rules data) 0
  /-- The expression cannot be read. -/
  | unreadable {text e} (h : (Expr.ofString text : Except ParseError (Expr Float)) = .error e) :
    Ends read (.check text) 4
  /-- The expression leaves the vocabulary. -/
  | outsideVocabulary {text v} {e : Expr Float} (hread : Expr.ofString text = .ok e)
    (h : e.validate = .error v) : Ends read (.check text) 4
  /-- The expression is fine. -/
  | checked {text} {e : Expr Float} (hread : Expr.ofString text = .ok e) (h : e.validate = .ok ()) :
    Ends read (.check text) 0
  /-- The text calls no indicator. -/
  | noIndicator {data symbol indicator limit e} (h : readIndicator indicator = .error e) :
    Ends read (.history data symbol indicator limit) 4
  /-- The history cannot be read. -/
  | unfetched {data symbol indicator limit i s reason} (hread : readIndicator indicator = .ok i)
    (h : Id.run (Prices.fetch read data (historyRequest symbol i limit)) =
      .error (.failed s reason)) : Ends read (.history data symbol indicator limit) 3
  /-- There is no history. -/
  | noData {data symbol indicator limit i s} (hread : readIndicator indicator = .ok i)
    (h : Id.run (Prices.fetch read data (historyRequest symbol i limit)) = .error (.noData s)) :
    Ends read (.history data symbol indicator limit) 5
  /-- There is a history. -/
  | shown {data symbol indicator limit i s} (hread : readIndicator indicator = .ok i)
    (h : Id.run (Prices.fetch read data (historyRequest symbol i limit)) = .ok s) :
    Ends read (.history data symbol indicator limit) 0

variable {read : FileReader Id}

/-- A command ends in one way. -/
theorem Ends.unique {c : Command} {m n : Nat} (hm : Ends read c m) (hn : Ends read c n) :
    m = n := by
  -- Two ways that differ disagree on the first stage that only one of them gets past.
  cases hm <;> cases hn <;> simp_all

/-- A command has few ways to end. -/
theorem Ends.mem_exitCodes {c : Command} {n : Nat} (h : Ends read c n) : n ∈ c.exitCodes := by
  cases h <;> simp [exitCodes]

/-- The settings of an evaluation are loaded, and then they are validated. -/
theorem usableSettings_eq (config : String) (data : Option String)
    (answer : Except ReadFault (List UInt8)) :
    usableSettings config data answer =
      match settingsOfAnswer config answer with
      | .error e => .error e
      | .ok s =>
        match s.validateFor data with
        | .error e => .error e
        | .ok () => .ok (s, s.directoryFor data) := by
  unfold usableSettings
  cases settingsOfAnswer config answer with
  | error e => rfl
  | ok s =>
    cases data with
    | some directory => rfl
    | none =>
      simp only [Settings.validate, Settings.validateFor]
      cases s.validatePath <;> rfl

/-- The stages of an evaluation. -/
theorem evaluateRules_eq (read : FileReader Id) (config rules : String) (data : Option String) :
    Id.run (evaluateRules read config rules data) =
      match settingsOfAnswer config (Id.run (read config)) with
      | .error e => .error (.settings e)
      | .ok s =>
        match s.validateFor data with
        | .error e => .error (.settings e)
        | .ok () =>
          match Id.run (RuleFile.load read rules) with
          | .error e => .error (.rules e)
          | .ok loaded => .ok (Report.outcome (evaluation read s data loaded)) := by
  simp only [evaluateRules, usableSettings_eq, Id.run_bind]
  cases settingsOfAnswer config (Id.run (read config)) with
  | error e => rfl
  | ok s =>
    dsimp only
    cases s.validateFor data with
    | error e => rfl
    | ok u =>
      simp only [Id.run_bind]
      cases (RuleFile.load read rules).run with
      | error e => rfl
      | ok loaded => rfl

/-- The stages of a history. -/
theorem showHistory_eq (read : FileReader Id) (data symbol indicator : String) (limit : Nat) :
    Id.run (showHistory read data symbol indicator limit) =
      match readIndicator indicator with
      | .error e => .error (.indicator e)
      | .ok i =>
        match Id.run (Prices.fetch read data (historyRequest symbol i limit)) with
        | .error e => .error (.fetch e)
        | .ok s =>
          let points := i.history s.bars
          .ok (Report.history symbol i (points.drop (points.length - limit))) := by
  unfold showHistory
  cases readIndicator indicator with
  | error e => rfl
  | ok i =>
    simp only [Id.run_bind, historyRequest]
    cases (Prices.fetch read data ⟨symbol, min (limit + i.settlingBars) Number.maxCount⟩).run with
    | error e => rfl
    | ok s => rfl

/-- Where a program does not end with zero, nothing is printed. -/
theorem out_of_eq_empty {result : Except Failure String} (h : (Ended.of result).exitCode ≠ 0) :
    (Ended.of result).out = "" := by
  cases result with
  | error f => rfl
  | ok report => exact absurd rfl h

/-- What a command leaves behind is made of its report or its failure. -/
theorem exists_run_eq_of (read : FileReader Id) (c : Command) :
    ∃ result, Id.run (c.run read) = .of result := by
  cases c with
  | evaluate config rules data => exact ⟨Id.run (evaluateRules read config rules data), rfl⟩
  | check text => exact ⟨checkExpression text, rfl⟩
  | history data symbol indicator limit =>
    exact ⟨Id.run (showHistory read data symbol indicator limit), rfl⟩

/-- An evaluation ends as its stages say. -/
theorem ends_evaluate (read : FileReader Id) (config rules : String) (data : Option String) :
    Ends read (.evaluate config rules data)
      (Ended.of (Id.run (evaluateRules read config rules data))).exitCode := by
  rw [evaluateRules_eq]
  cases hload : settingsOfAnswer config (Id.run (read config)) with
  | error e => exact .settingsUnloaded hload
  | ok s =>
    dsimp only
    cases hvalid : s.validateFor data with
    | error e => exact .settingsInvalid hload hvalid
    | ok u =>
      cases hrules : Id.run (RuleFile.load read rules) with
      | error e => exact .rulesUnloaded hload hvalid hrules
      | ok loaded => exact .evaluated hload hvalid hrules

/-- A check ends as its stages say. -/
theorem ends_check (read : FileReader Id) (text : String) :
    Ends read (.check text) (Ended.of (checkExpression text)).exitCode := by
  unfold checkExpression
  cases hread : (Expr.ofString text : Except ParseError (Expr Float)) with
  | error e => exact .unreadable hread
  | ok e =>
    dsimp only
    cases hvalid : e.validate with
    | error v => exact .outsideVocabulary hread hvalid
    | ok u => exact .checked hread hvalid

/-- A history ends as its stages say. -/
theorem ends_history (read : FileReader Id) (data symbol indicator : String) (limit : Nat) :
    Ends read (.history data symbol indicator limit)
      (Ended.of (Id.run (showHistory read data symbol indicator limit))).exitCode := by
  rw [showHistory_eq]
  cases hread : readIndicator indicator with
  | error e => exact .noIndicator hread
  | ok i =>
    dsimp only
    cases hfetch : Id.run (Prices.fetch read data (historyRequest symbol i limit)) with
    | error e =>
      cases e with
      | noData s => exact .noData hread hfetch
      | failed s reason => exact .unfetched hread hfetch
    | ok s => exact .shown hread hfetch

/-- A command ends as its stages say. -/
theorem ends_exitCode (read : FileReader Id) (c : Command) :
    Ends read c (Id.run (c.run read)).exitCode := by
  cases c with
  | evaluate config rules data => exact ends_evaluate read config rules data
  | check text => exact ends_check read text
  | history data symbol indicator limit => exact ends_history read data symbol indicator limit

/-- Whatever the price files hold, the outcome of an evaluation accounts for its rules. -/
theorem evaluation_accountsFor (read : FileReader Id) (s : Settings) (data : Option String)
    (rules : List Rule) : (evaluation read s data rules).AccountsFor rules := by
  have hanswers : (Id.run ((Batch.plan Float s.batch rules).mapM fun r => do
      return (← source read (s.directoryFor data) r).toExcept r.symbol)).length =
        (Batch.groups rules).length := by
    rw [List.idRun_mapM, List.length_map, Batch.plan, List.length_map]
  exact Batch.judgeAll_accountsFor
    (fun {β} (x : StateT (Ledger Float) Id β) => (Id.run (x.run [])).1) (fun _ _ => rfl) _
    (Nat.le_of_eq hanswers.symm)

/-- An evaluation that ends with zero reports on its outcome. -/
theorem exists_outcome_of_exitCode {config rules : String} {data : Option String}
    (h : (Id.run (Command.run read (.evaluate config rules data))).exitCode = 0) :
    ∃ s loaded, settingsOfAnswer config (Id.run (read config)) = .ok s ∧
      Id.run (RuleFile.load read rules) = .ok loaded ∧
      (Id.run (Command.run read (.evaluate config rules data))).out =
        Report.outcome (evaluation read s data loaded) := by
  have hends := ends_exitCode read (.evaluate config rules data)
  rw [h] at hends
  cases hends with
  | @evaluated _ _ _ s loaded hload hvalid hrules =>
    refine ⟨s, loaded, hload, hrules, ?_⟩
    have hreport : Id.run (evaluateRules read config rules data) =
        .ok (Report.outcome (evaluation read s data loaded)) := by
      simp only [evaluateRules_eq, hload, hvalid, hrules]
    exact congrArg (fun result => (Ended.of result).out) hreport

/-- Whatever files there are, a command ends with the exit code of the first stage that fails, or
with zero if none does; if it does not end with zero, nothing is printed. An evaluation that ends
with zero prints, for each rule that takes part, a line that tells what became of it, and then an
empty line and the tally. -/
theorem run_ends_at_first_failure (read : FileReader Id) (c : Command) :
    (∀ code, (Id.run (c.run read)).exitCode = code ↔ Ends read c code) ∧
      (Id.run (c.run read)).exitCode ∈ c.exitCodes ∧
      ((Id.run (c.run read)).exitCode ≠ 0 → (Id.run (c.run read)).out = "") ∧
      ∀ config rules data, c = .evaluate config rules data → (Id.run (c.run read)).exitCode = 0 →
        ∃ s loaded o lines, settingsOfAnswer config (Id.run (read config)) = .ok s ∧
          Id.run (RuleFile.load read rules) = .ok loaded ∧
          o = evaluation read s data loaded ∧ o.AccountsFor loaded ∧
          List.Forall₂ Report.Tells o.entries lines ∧
          (Id.run (c.run read)).out = String.join lines ++ "\n" ++
            ("triggered: " ++ toString o.tally.fired ++ ", not triggered: " ++
              toString o.tally.idle ++ ", errors: " ++ toString o.tally.failed ++ "\n") := by
  have hends := ends_exitCode read c
  refine ⟨fun code => ⟨fun h => h ▸ hends, hends.unique⟩, hends.mem_exitCodes, fun h => ?_, ?_⟩
  · obtain ⟨result, hresult⟩ := exists_run_eq_of read c
    rw [hresult] at h ⊢
    exact out_of_eq_empty h
  · rintro config rules data rfl hzero
    obtain ⟨s, loaded, hload, hrules, hout⟩ := exists_outcome_of_exitCode hzero
    exact ⟨s, loaded, _, _, hload, hrules, rfl, evaluation_accountsFor read s data loaded,
      Report.forall₂_tells _, hout⟩

/-- Reads a few files by their paths. -/
def readerOf (files : List (String × String)) : FileReader Id := fun path =>
  match files.lookup path with
  | some text => pure (.ok (Text.Utf8.encode text.toList))
  | none => pure (.error .notFound)

/-- Settings that say nothing, three rules, and prices for the symbol of two of them. -/
def threeRules : FileReader Id := readerOf
  [("settings.ini", ""),
    ("rules.csv", "id,user_id,symbol,expression,action,quantity_type,quantity_value,is_active\n" ++
      "r1,u,X,close > 1,BUY,FIXED,5,true\n" ++ "r2,u,X,close > 60,BUY,FIXED,5,true\n" ++
      "r3,u,Y,close > 1,BUY,FIXED,5,true\n"),
    ("data/X.csv", "datetime,open,high,low,close,volume\n2024-01-01,50,50,50,50,100\n")]

/-- Of three rules, one fires, one does not, and one has no data. -/
theorem run_ends_at_first_failure_three_rules :
    let ended := Id.run (Command.run threeRules (.evaluate "settings.ini" "rules.csv" "data"))
    ended = ⟨0, "r1           X        TRIGGERED BUY 5 @ 50.00 = 250.00 (cash -250.00)\n" ++
      "r2           X        not triggered @ 50.00\n" ++
      "r3           Y        ERROR no data for Y\n" ++
      "\ntriggered: 1, not triggered: 1, errors: 1\n", ""⟩ ∧
    ∃ (o : Outcome Float) (lines : List String),
      o.entries.map (fun e => e.rule.id) = ["r1", "r2", "r3"] ∧
      List.Forall₂ Report.Tells o.entries lines ∧
      ended.out = String.join lines ++ "\n" ++
        ("triggered: " ++ toString o.tally.fired ++ ", not triggered: " ++ toString o.tally.idle ++
          ", errors: " ++ toString o.tally.failed ++ "\n") := by
  intro ended
  have hzero : ended.exitCode = 0 := by decide +kernel
  have hids : (Id.run (RuleFile.load threeRules "rules.csv")).toOption.map
      (fun loaded => ((Batch.symbols loaded).flatMap (Batch.rulesOn loaded)).map Rule.id) =
        some ["r1", "r2", "r3"] := by
    decide +kernel
  obtain ⟨s, loaded, o, lines, -, hrules, -, haccounts, htells, hout⟩ :=
    (run_ends_at_first_failure threeRules (.evaluate "settings.ini" "rules.csv" "data")).2.2.2
      _ _ _ rfl hzero
  rw [hrules] at hids
  refine ⟨by decide +kernel, o, lines, ?_, htells, hout⟩
  calc o.entries.map (fun e => e.rule.id)
      = (o.entries.map Entry.rule).map Rule.id := List.map_map.symm
    _ = ((Batch.symbols loaded).flatMap (Batch.rulesOn loaded)).map Rule.id :=
        congrArg (List.map Rule.id) haccounts.rules_eq
    _ = ["r1", "r2", "r3"] := Option.some.inj hids

end Command

end TradeRules
