import TradeRules.Proofs.Command.Quoted

/-!
# The lines of a report

What is reported of a rule is one line exactly if every text quoted there is one
(`Report.splitOn_outcome_eq_iff`), so that there is one line for each rule where no line feed stands
in what may be quoted (`Command.evaluate_prints_lines`). But a cell between quotes may hold one, and
then a report has more lines than rules (`Command.evaluate_splits_entry`).
-/

namespace TradeRules

open Text Number

namespace Report

/-- The lines behind those of the entries: an empty one, the tally, and nothing behind the last line
feed. -/
def closing (t : Tally) : List (List Char) := [[], (summaryText t).toList, []]

/-- A report has the lines of its entries and three more. -/
theorem splitOn_outcome (o : Outcome Float) :
    (outcome o).toList.splitOn '\n' =
      o.entries.flatMap (fun e => (entryText e).toList.splitOn '\n') ++ closing o.tally := by
  have hfeed : "\n".toList = ['\n'] := rfl
  have hentry : ∀ e, entry e = entryText e ++ "\n" := fun _ => rfl
  have hsummary : summary o.tally = summaryText o.tally ++ "\n" := rfl
  have hentries : (String.join (o.entries.map entry)).toList =
      (o.entries.map fun e => (entryText e).toList).flatMap (· ++ ['\n']) := by
    rw [String.toList_join, List.flatMap_map, List.flatMap_map]
    simp only [hentry, String.toList_append, hfeed]
  have hrest : ("\n" ++ summary o.tally).toList =
      [] ++ '\n' :: ((summaryText o.tally).toList ++ '\n' :: []) := by
    simp only [hsummary, String.toList_append, hfeed, List.singleton_append, List.nil_append]
  have htally : (summaryText o.tally).toList.splitOn '\n' = [(summaryText o.tally).toList] :=
    List.splitOn_eq_singleton (isLine_summaryText o.tally)
  rw [outcome, String.append_assoc, String.toList_append, hentries, hrest, splitOn_flatMap_append,
    List.flatMap_map, splitOn_append_lineFeed, splitOn_append_lineFeed, htally]
  rfl

/-- A report has one line for each entry and three more exactly if every text that its entries quote
is one line. -/
theorem splitOn_outcome_eq_iff (o : Outcome Float) :
    (outcome o).toList.splitOn '\n' =
        o.entries.map (fun e => (entryText e).toList) ++ closing o.tally ↔
      ∀ e ∈ o.entries, ∀ t ∈ e.quoted, IsLine t := by
  have hrows := flatMap_splitOn_eq_self_iff (o.entries.map fun e => (entryText e).toList)
  rw [List.flatMap_map, List.forall_mem_map] at hrows
  rw [splitOn_outcome, List.append_cancel_right_eq, hrows]
  exact forall₂_congr fun e _ => isLine_entryText_iff e

end Report

namespace Command

variable {read : FileReader Id} {config rules : String} {data : Option String}

/-- An evaluation that ends with zero prints what it reports of the rules that take part, in the
order of the outcome, then an empty line and the tally. What it reports of a rule is one line
exactly if every text that it quotes is one, be it the name of the rule, its symbol or a text in an
error, and it is one where no line feed stands in the texts of the rules, in the price files of
their symbols and in the name of their directory. -/
theorem evaluate_prints_lines
    (h : (Id.run (Command.run read (.evaluate config rules data))).exitCode = 0) :
    ∃ s loaded, settingsOfAnswer config (Id.run (read config)) = .ok s ∧
      Id.run (RuleFile.load read rules) = .ok loaded ∧
      (evaluation read s data loaded).AccountsFor loaded ∧
      (Id.run (Command.run read (.evaluate config rules data))).out.toList.splitOn '\n' =
        (evaluation read s data loaded).entries.flatMap
          (fun e => (Report.entryText e).toList.splitOn '\n') ++
            Report.closing (evaluation read s data loaded).tally ∧
      ((Id.run (Command.run read (.evaluate config rules data))).out.toList.splitOn '\n' =
        (evaluation read s data loaded).entries.map (fun e => (Report.entryText e).toList) ++
          Report.closing (evaluation read s data loaded).tally ↔
        ∀ e ∈ (evaluation read s data loaded).entries, ∀ t ∈ e.quoted, IsLine t) ∧
      (WithoutBreaks read (s.directoryFor data) loaded →
        ∀ e ∈ (evaluation read s data loaded).entries, ∀ t ∈ e.quoted, IsLine t) := by
  obtain ⟨s, loaded, hload, hrules, hout⟩ := exists_outcome_of_exitCode h
  rw [hout]
  exact ⟨s, loaded, hload, hrules, evaluation_accountsFor read s data loaded,
    Report.splitOn_outcome _, Report.splitOn_outcome_eq_iff _,
    fun hbreaks _ he => hbreaks.isLine_of_mem_quoted he⟩

/-- Settings that say nothing, a rule in one row, and some price files. -/
def oneRow (row : String) (prices : List (String × String)) : FileReader Id :=
  readerOf (("settings.ini", "") :: ("rules.csv",
    "id,user_id,symbol,expression,action,quantity_type,quantity_value,is_active\n" ++ row ++ "\n")
    :: prices)

/-- The evaluation of these files. -/
def evaluateOneRow : Command := .evaluate "settings.ini" "rules.csv" (some "data")

/-- One rule without line feeds and without prices is reported on one line. -/
theorem evaluate_prints_lines_no_data :
    ∃ (entries : List (Entry Float)) (t : Tally),
      entries.map Entry.rule = [⟨"r1", "u", "X", "close > 1", .buy, .fixed, "1", true⟩] ∧
      (Id.run (evaluateOneRow.run
        (oneRow "r1,u,X,close > 1,BUY,FIXED,1,true" []))).out.toList.splitOn '\n' =
          entries.map (fun e => (Report.entryText e).toList) ++ Report.closing t := by
  have hzero : (Id.run (evaluateOneRow.run
      (oneRow "r1,u,X,close > 1,BUY,FIXED,1,true" []))).exitCode = 0 := by
    decide +kernel
  have hloaded : (Id.run (RuleFile.load
      (oneRow "r1,u,X,close > 1,BUY,FIXED,1,true" []) "rules.csv")).toOption =
        some [⟨"r1", "u", "X", "close > 1", .buy, .fixed, "1", true⟩] := by
    decide +kernel
  obtain ⟨s, loaded, -, hrules, haccounts, -, hlines, hquoted⟩ := evaluate_prints_lines hzero
  rw [hrules] at hloaded
  cases hloaded
  have hdirectory : s.directoryFor (some "data") = "data" := rfl
  have hmissing : Id.run (oneRow "r1,u,X,close > 1,BUY,FIXED,1,true" []
      (Prices.path "data" "X")) = .error .notFound := by
    decide +kernel
  refine ⟨_, _, haccounts.rules_eq.trans (by decide), hlines.2 (hquoted ?_)⟩
  rw [hdirectory]
  refine ⟨by decide, by decide, List.forall_mem_singleton.2 ?_⟩
  rw [hmissing]
  refine ⟨fun fault hfault => ?_, fun _ _ _ _ hanswer => ?_⟩
  · cases hfault
    decide
  · cases hanswer

/-- A line feed in the name of a rule, and one in a condition that cannot be read, each split what
is reported of the rule. -/
theorem evaluate_splits_entry :
    ((Id.run (RuleFile.load (oneRow "\"r\n1\",u,X,close > 1,BUY,FIXED,1,true" [])
        "rules.csv")).toOption.map List.length = some 1 ∧
      Id.run (evaluateOneRow.run (oneRow "\"r\n1\",u,X,close > 1,BUY,FIXED,1,true" [])) =
        ⟨0, "r\n1          X        ERROR no data for X\n\n" ++
          "triggered: 0, not triggered: 0, errors: 1\n", ""⟩) ∧
    (Id.run (RuleFile.load (oneRow "r1,u,X,\"close > 1 a\nb\",BUY,FIXED,1,true"
        [("data/X.csv", "datetime,open,high,low,close,volume\n2024-01-01,2,2,2,2,100\n")])
        "rules.csv")).toOption.map List.length = some 1 ∧
      Id.run (evaluateOneRow.run (oneRow "r1,u,X,\"close > 1 a\nb\",BUY,FIXED,1,true"
        [("data/X.csv", "datetime,open,high,low,close,volume\n2024-01-01,2,2,2,2,100\n")])) =
        ⟨0, "r1           X        ERROR parse error at position 10: " ++
          "unexpected input after expression: 'a\nb'\n\n" ++
          "triggered: 0, not triggered: 0, errors: 1\n", ""⟩ := by
  decide +kernel

end Command

end TradeRules
