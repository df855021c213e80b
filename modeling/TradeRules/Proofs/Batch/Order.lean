import TradeRules.Proofs.Batch.Fetch
import TradeRules.Proofs.Batch.Ledger

/-!
# The order of a batch and the other symbols

Where source and accounts answer by what they are asked alone, what a batch comes to is known from
its rules (`Batch.outcome?_eq`): each rule is judged on the history of its symbol and on the answer
of its user's account. The order of the rules shows in the order of the entries only, and the rules
on a symbol know nothing of the others.

An account that breaks down takes the batch with it, so that there is no outcome.
-/

namespace TradeRules

variable {α : Type}

namespace Ledger

/-- Where the accounts of all users answer, the ledger holds those answers. -/
theorem mapM_ask_of_isSome {accounts : String → Option (Except String α)} {users : List String}
    (h : ∀ user ∈ users, (accounts user).isSome) :
    ∃ calls, users.mapM (ask accounts) = some calls ∧
      ∀ user ∈ users, answers calls user = accounts user := by
  induction users with
  | nil => exact ⟨[], rfl, by simp⟩
  | cons user users ih =>
    obtain ⟨calls, hcalls, hanswers⟩ := ih fun other hother => h other (List.mem_cons_of_mem _ hother)
    obtain ⟨answer, hanswer⟩ := Option.isSome_iff_exists.1 (h user List.mem_cons_self)
    refine ⟨(user, answer) :: calls, ?_, ?_⟩
    · rw [List.mapM_cons, hcalls, ask, hanswer]
      rfl
    · intro other hother
      rw [answers, List.lookup_cons]
      by_cases hsame : other = user
      · rw [hsame, beq_self_eq_true, hanswer]
      · rw [beq_false_of_ne hsame]
        exact hanswers other ((List.mem_cons.1 hother).resolve_left hsame)

/-- An account that breaks down ends the asking. -/
theorem mapM_ask_of_eq_none {accounts : String → Option (Except String α)} {users : List String}
    {user : String} (huser : user ∈ users) (h : accounts user = none) :
    users.mapM (ask accounts) = none := by
  induction users with
  | nil => cases huser
  | cons other users ih =>
    rw [List.mapM_cons]
    rcases List.mem_cons.1 huser with rfl | huser
    · rw [ask, h]
      rfl
    · rw [ih huser]
      cases ask accounts other <;> rfl

end Ledger

namespace Batch

/-- Each rule is paired with what there is for its own symbol. -/
theorem paired_eq_map {β : Type} (rules : List Rule) (history : String → β) :
    paired rules history =
      ((symbols rules).flatMap (rulesOn rules)).map fun r => (r, history r.symbol) := by
  rw [paired, List.map_flatMap]
  congr 1
  funext s
  refine List.map_congr_left fun r hr => ?_
  rw [beq_iff_eq.1 (List.mem_filter.1 hr).2]

/-- The rules symbol by symbol are the rules that take part. -/
theorem flatMap_rulesOn_perm (rules : List Rule) :
    ((symbols rules).flatMap (rulesOn rules)).Perm (active rules) := by
  have h := groups_perm rules
  rwa [groups_eq, List.flatMap_map] at h

variable [Scalar α]

/-- What a batch comes to where source and accounts answer by what they are asked alone. -/
def outcome? (source : Request → Answer α) (accounts : String → Option (Except String α))
    (settings : BatchSettings) (rules : List Rule) : Option (Outcome α) :=
  run (fun r => some (source r)) accounts settings rules

/-- The history that the rules on a symbol are judged on. -/
def historyOn (source : Request → Answer α) (settings : BatchSettings) (rules : List Rule)
    (s : String) : Except SourceError (Series α) :=
  (source (request α settings rules s)).toExcept s

/-- The rules that take part, each with the history that it is judged on. -/
def judged (source : Request → Answer α) (settings : BatchSettings) (rules : List Rule) :
    List (Rule × Except SourceError (Series α)) :=
  paired rules (historyOn source settings rules)

/-- A batch comes to the verdicts for the histories and the accounts' answers, unless the account of
someone who is to pay breaks down. -/
theorem outcome?_eq (source : Request → Answer α) (accounts : String → Option (Except String α))
    (settings : BatchSettings) (rules : List Rule) :
    outcome? source accounts settings rules =
      if ∀ user ∈ payers (judged source settings rules), (accounts user).isSome then
        some (outcomeOn accounts (judged source settings rules))
      else none := by
  have hfetch := fetch_pure (m := Option) source settings rules
  have hrun : outcome? source accounts settings rules =
      (fun calls => outcomeOn (Ledger.answers calls) (judged source settings rules)) <$>
        (payers (judged source settings rules)).mapM (Ledger.ask accounts) := by
    calc outcome? source accounts settings rules
        = fetch (fun r => some (source r)) settings rules >>= judgeAnswers accounts rules :=
          run_eq (fun r => some (source r)) accounts settings rules
      _ = judgeAnswers accounts rules ((symbols rules).map (historyOn source settings rules)) :=
          congrArg (· >>= judgeAnswers accounts rules) hfetch
      _ = _ := by
          rw [judgeAnswers_eq, cases_groups]
          rfl
  rw [hrun]
  split
  · rename_i hall
    obtain ⟨calls, hcalls, hanswers⟩ := Ledger.mapM_ask_of_isSome hall
    rw [hcalls]
    exact congrArg some (outcomeOn_congr hanswers)
  · rename_i hbroken
    simp only [not_forall, Option.not_isSome_iff_eq_none] at hbroken
    obtain ⟨user, huser, hnone⟩ := hbroken
    rw [Ledger.mapM_ask_of_eq_none huser hnone]
    rfl

/-- An outcome of a batch rests on the histories and on the accounts' answers. -/
theorem eq_outcomeOn_of_outcome? {source : Request → Answer α}
    {accounts : String → Option (Except String α)} {settings : BatchSettings} {rules : List Rule}
    {o : Outcome α} (h : outcome? source accounts settings rules = some o) :
    o = outcomeOn accounts (judged source settings rules) := by
  rw [outcome?_eq] at h
  split at h <;> cases h
  rfl

/-- There is an outcome unless the account of someone who is to pay breaks down. -/
theorem isSome_outcome?_iff {source : Request → Answer α}
    {accounts : String → Option (Except String α)} {settings : BatchSettings}
    {rules : List Rule} :
    (outcome? source accounts settings rules).isSome ↔
      ∀ c ∈ judged source settings rules, Pays c → (accounts c.1.user).isSome := by
  have hpayers : (∀ user ∈ payers (judged source settings rules), (accounts user).isSome) ↔
      ∀ c ∈ judged source settings rules, Pays c → (accounts c.1.user).isSome := by
    constructor
    · intro h c hc hpays
      exact h c.1.user (mem_payers.2 ⟨c, hc, hpays, rfl⟩)
    · intro h user huser
      obtain ⟨c, hc, hpays, rfl⟩ := mem_payers.1 huser
      exact h c hc hpays
  rw [outcome?_eq, ← hpayers]
  split <;> simp_all

/-- Every rule that takes part has its entry, symbol by symbol. -/
theorem map_rule_outcomeOn (source : Request → Answer α)
    (answers : String → Option (Except String α)) (settings : BatchSettings) (rules : List Rule) :
    (outcomeOn answers (judged source settings rules)).entries.map Entry.rule =
      (symbols rules).flatMap (rulesOn rules) := by
  rw [entries_outcomeOn, judged, paired_eq_map, List.map_map, List.map_map]
  exact List.map_id _

end Batch

end TradeRules
