import TradeRules.Proofs.Batch.AtHand
import TradeRules.Proofs.Rule.Percentage

/-!
# Budgets

A percentage is a share of a user's cash, and since a batch sizes all rules of a user with one
answer of the user's account, what it trades for the user by percentage is worth no more than those
shares of that cash together (`Outcome.KeepsBudget`): not more than the cash, as long as the
percentages do not add up to more than 100. All of this is said of exact arithmetic.
-/

namespace TradeRules

/-- The percentage of an entry's rule, where it is sized by one. -/
def Entry.percent (e : Entry ℚ) : ℚ := (positiveSize? e.rule.size).getD 0

namespace Outcome

variable {α : Type}

/-- The trades of a user's rules that are sized by percentage. -/
def shares (o : Outcome α) (user : String) : List (Entry α) :=
  o.trades.filter fun e => e.rule.user = user ∧ e.rule.sizing = .percentage

/-- What these trades are worth together. -/
def worth (o : Outcome ℚ) (user : String) : ℚ := ((o.shares user).map fun e => e.verdict.total).sum

/-- Their percentages together. -/
def percents (o : Outcome ℚ) (user : String) : ℚ := ((o.shares user).map Entry.percent).sum

/-- An outcome keeps the budget of a user with some cash where the percentages that were traded are
within bounds and pay for what they were traded for. -/
structure KeepsBudget (o : Outcome ℚ) (user : String) (cash : ℚ) : Prop where
  /-- Each percentage is the one that its rule says. -/
  percent_eq : ∀ e ∈ o.shares user, positiveSize? e.rule.size = some e.percent
  /-- None is above 100. -/
  percent_le : ∀ e ∈ o.shares user, e.percent ≤ 100
  /-- Together they pay for all that is traded. -/
  worth_le : o.worth user ≤ cash * o.percents user / 100
  /-- As long as they do not add up to more than 100, so does the cash. -/
  worth_le_cash : o.percents user ≤ 100 → o.worth user ≤ cash

/-- A user's budget of some cash is kept where each trade is paid for by its own percentage. -/
theorem KeepsBudget.of_forall {o : Outcome ℚ} {user : String} {cash : ℚ} (hcash : 0 ≤ cash)
    (h : ∀ e ∈ o.shares user, positiveSize? e.rule.size = some e.percent ∧ e.percent ≤ 100 ∧
      e.verdict.total ≤ cash * e.percent / 100) : o.KeepsBudget user cash := by
  have hworth : o.worth user ≤ cash * o.percents user / 100 := by
    calc o.worth user
        ≤ ((o.shares user).map fun e => cash / 100 * e.percent).sum :=
          List.sum_le_sum fun e he => by
            have hpaid := (h e he).2.2
            linarith
      _ = cash * o.percents user / 100 := by
          rw [List.sum_map_mul_left, percents]
          ring
  refine ⟨fun e he => (h e he).1, fun e he => (h e he).2.1, hworth, fun hpercents => ?_⟩
  calc o.worth user
      ≤ cash * o.percents user / 100 := hworth
    _ ≤ cash := by nlinarith

end Outcome

/-- Cash to size a rule by percentage with is what its user's account answered. -/
theorem Ledger.answer_of_fundsOf {α : Type} {answers : String → Option (Except String α)}
    {rule : Rule} {cash : α} (hsizing : rule.sizing = .percentage)
    (h : fundsOf answers rule = .ok (some cash)) : answers rule.user = some (.ok cash) := by
  simp only [fundsOf, hsizing] at h
  cases hanswer : answers rule.user with
  | none =>
    rw [hanswer] at h
    cases h
  | some answer =>
    rw [hanswer] at h
    cases answer with
    | error reason => cases h
    | ok known =>
      cases h
      rfl

namespace Batch

/-- A verdict to trade is the decision of the rule on the history that it was judged on. -/
theorem exists_decision_of_isTrade {α : Type} [Scalar α]
    {answer : Except (SizingError α) (Option α)} {c : Rule × Except SourceError (Series α)}
    (h : (verdict answer c).isTrade = true) :
    ∃ s d, Id.run (c.1.evaluate s (pure answer)) = .ok d ∧ d.isTrade = true ∧
      verdict answer c = .ok d := by
  obtain ⟨rule, history⟩ := c
  cases history with
  | error e => cases h
  | ok s =>
    have hverdict : verdict answer (rule, .ok s) =
        (Id.run (rule.evaluate s (pure answer))).mapError .rule := rfl
    cases hd : Id.run (rule.evaluate s (pure answer)) with
    | error e =>
      rw [hverdict, hd] at h
      cases h
    | ok d =>
      rw [hverdict, hd] at h
      exact ⟨s, d, hd, h, by rw [hverdict, hd]; rfl⟩

/-- A rule by percentage that trades is paid for by its percentage of its user's cash. -/
theorem total_entryOn_le {answers : String → Option (Except String ℚ)}
    {c : Rule × Except SourceError (Series ℚ)} (hsizing : c.1.sizing = .percentage)
    (htrade : (entryOn answers c).verdict.isTrade = true) :
    ∃ percent cash, positiveSize? c.1.size = some percent ∧ percent ≤ 100 ∧
      answers c.1.user = some (.ok cash) ∧
      (entryOn answers c).verdict.total ≤ cash * percent / 100 := by
  obtain ⟨s, d, hd, hdecides, hverdict⟩ := exists_decision_of_isTrade htrade
  obtain ⟨percent, cash, hpercent, hbound, hfunds, htotal⟩ :=
    Rule.total_le_of_evaluate hsizing hd hdecides
  refine ⟨percent, cash, hpercent, hbound, Ledger.answer_of_fundsOf hsizing hfunds, ?_⟩
  have hentry : (entryOn answers c).verdict = .ok d := hverdict
  rw [hentry]
  exact htotal

/-- Where the account of a user answers nothing but some cash, the budget of that user is kept. -/
theorem outcomeOn_keepsBudget {answers : String → Option (Except String ℚ)}
    (cases : List (Rule × Except SourceError (Series ℚ))) {user : String} {cash : ℚ}
    (hcash : 0 ≤ cash) (h : ∀ answer, answers user = some answer → answer = .ok cash) :
    (outcomeOn answers cases).KeepsBudget user cash := by
  refine .of_forall hcash fun e he => ?_
  simp only [Outcome.shares, Outcome.trades, List.mem_filter, Bool.decide_and, Bool.and_eq_true,
    decide_eq_true_eq] at he
  obtain ⟨⟨hmem, htrade⟩, huser, hsizing⟩ := he
  rw [entries_outcomeOn, List.mem_map] at hmem
  obtain ⟨c, -, rfl⟩ := hmem
  obtain ⟨percent, found, hpercent, hbound, hanswer, htotal⟩ := total_entryOn_le hsizing htrade
  have hknown : answers c.1.user = answers user := congrArg answers huser
  have hfound := h _ (hknown ▸ hanswer)
  cases hfound
  have hentry : (entryOn answers c).percent = percent := by
    change (positiveSize? c.1.size).getD 0 = percent
    rw [hpercent, Option.getD_some]
  rw [hentry]
  exact ⟨hpercent, hbound, htotal⟩

/-- Whatever source and accounts answer and remember, a batch comes to what its rules come to on the
answers of the calls that it makes. -/
theorem exists_calls {α σ : Type} [Scalar α] (source : Request → StateM σ (Answer α))
    (accounts : String → StateM σ (Except String α)) (settings : BatchSettings)
    (rules : List Rule) (world : σ) :
    ∃ (cases : List (Rule × Except SourceError (Series α))) (calls : Ledger α) (last : σ),
      (calls.map Prod.fst).Nodup ∧
      run source accounts settings rules world = (outcomeOn calls.answers cases, last) ∧
      run (fun r => unnoted (source r)) (Ledger.noted accounts) settings rules ([], world) =
        (outcomeOn calls.answers cases, calls, last) := by
  have hfetch : fetch source settings rules world =
      ((fetch source settings rules world).1, (fetch source settings rules world).2) := rfl
  have hrun := run_eq_outcomeOn source accounts settings rules hfetch
  have hnoted := run_noted source accounts settings rules hfetch
  rcases hcalls : (payers (cases (groups rules) (fetch source settings rules world).1)).mapM
    (Ledger.ask accounts) (fetch source settings rules world).2 with ⟨calls, last⟩
  have husers := Ledger.map_fst_mapM_ask accounts
    (payers (cases (groups rules) (fetch source settings rules world).1))
    (fetch source settings rules world).2
  rw [hcalls] at hrun hnoted husers
  refine ⟨_, calls, last, ?_, hrun, hnoted⟩
  rw [husers]
  exact nodup_eraseDups _

/-- In exact arithmetic a rule by percentage that fires fails where its percentage of the cash does
not pay for one share, and otherwise trades the greatest number of shares that it pays for. So in a
batch the trades by percentage of a user, whose account is asked once at most, are worth no more
than their percentages of the cash that the account answers, whatever source and accounts answer and
remember; and the same holds for every user of a batch on histories at hand. -/
theorem percentages_keep_budget :
    (∀ (r : Rule) (s : Series ℚ) (c : Context ℚ) (percent cash : ℚ), r.sizing = .percentage →
      Context.of s = .ok c → r.FiresOn s → positiveSize? r.size = some percent → percent ≤ 100 →
      0 ≤ cash → 0 < c.price →
      (cash * percent / 100 < c.price →
        Id.run (r.evaluate s (pure (.ok (some cash)))) = .error (.sizing (.nonPositive 0))) ∧
      (c.price ≤ cash * percent / 100 → ∃ q : Nat,
        Id.run (r.evaluate s (pure (.ok (some cash)))) = .ok (.trade q c.price) ∧ 1 ≤ q ∧
        q * c.price ≤ cash * percent / 100 ∧
        (cash * percent / 100 / c.price < 2 ^ 64 →
          cash * percent / 100 < (q + 1) * c.price))) ∧
    (∀ {σ : Type} (source : Request → StateM σ (Answer ℚ))
      (accounts : String → StateM σ (Except String ℚ)) (settings : BatchSettings)
      (rules : List Rule) (world : σ), ∃ (outcome : Outcome ℚ) (calls : Ledger ℚ) (last : σ),
      run source accounts settings rules world = (outcome, last) ∧
      run (fun r => unnoted (source r)) (Ledger.noted accounts) settings rules ([], world) =
        (outcome, calls, last) ∧
      (calls.map Prod.fst).Nodup ∧
      ∀ user cash, 0 ≤ cash → (∀ answer, (user, answer) ∈ calls → answer = .ok cash) →
        outcome.KeepsBudget user cash) ∧
    ∀ (rules : List Rule) (histories : String → Option (Series ℚ)) (cash : ℚ) (user : String),
      0 ≤ cash → (evaluate rules histories (some cash)).KeepsBudget user cash := by
  refine ⟨?_, ?_, ?_⟩
  · intro r s c percent cash hsizing hcontext hfires hpercent hbound hcash hprice
    refine ⟨Rule.evaluate_percentage_of_lt hcontext hfires hsizing hpercent hbound hprice hcash,
      fun hshare => ?_⟩
    have hone : 1 ≤ cash * percent / 100 / c.price := (one_le_div hprice).2 hshare
    refine ⟨_, Rule.evaluate_percentage_of_le hcontext hfires hsizing hpercent hbound hprice hshare,
      Scalar.one_le_toCount_floor_rat hone, ?_, fun hcount => ?_⟩
    · exact (le_div_iff₀ hprice).1 (Scalar.toCount_floor_rat_le (zero_le_one.trans hone))
    · exact (div_lt_iff₀ hprice).1 (Scalar.lt_toCount_floor_rat_add_one hcount)
  · intro σ source accounts settings rules world
    obtain ⟨cases, calls, last, hnodup, hrun, hnoted⟩ :=
      exists_calls source accounts settings rules world
    refine ⟨_, calls, last, hrun, hnoted, hnodup, fun user cash hcash hcalls => ?_⟩
    refine outcomeOn_keepsBudget cases hcash fun answer hanswer => hcalls answer ?_
    obtain ⟨before, after, hsplit, -⟩ := List.lookup_eq_some_iff.1 hanswer
    rw [hsplit]
    exact List.mem_append_right before (List.mem_cons_self ..)
  · intro rules histories cash user hcash
    rw [evaluate_eq]
    exact outcomeOn_keepsBudget _ hcash fun answer hanswer => (Option.some.inj hanswer).symm

/-- Out of 1000, at a price of 7, three tenths buy 42 shares, a little more than a half buys 72, and
half a hundredth buys none. -/
theorem percentages_keep_budget_three_rules :
    let bar : Bar ℚ := ⟨⟨2024, 5, 1, 0, 0, 0, by decide, by decide⟩, 7, 7, 7, 7, 700⟩
    let rule (id size : String) : Rule :=
      ⟨id, "alice", "X", "close > 3", .buy, .percentage, size, true⟩
    let outcome := evaluate [rule "1" "30", rule "2" "50.5", rule "3" "0.5"]
      (fun s => some ⟨s, [bar]⟩) (some 1000)
    outcome.KeepsBudget "alice" 1000 ∧ outcome.percents "alice" = 161 / 2 ∧
      outcome.worth "alice" = 294 + 504 ∧ outcome.tally = ⟨2, 0, 1⟩ := by
  intro bar rule outcome
  refine ⟨percentages_keep_budget.2.2 _ _ 1000 "alice" (by norm_num), ?_⟩
  decide +kernel

end Batch

end TradeRules
