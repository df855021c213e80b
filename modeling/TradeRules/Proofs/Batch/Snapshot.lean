import TradeRules.Proofs.Batch.Fetch
import TradeRules.Proofs.Batch.Ledger

/-!
# One answer for each account

Whatever source and accounts answer and remember, a batch asks the account of each user who is to
pay exactly once, in the order in which their rules are judged, and nobody else's; and each rule is
sized with that answer, also if it is a refusal. Where the answer depends on the user alone,
asking again for every rule would come to the same.

To speak of the questions that are asked, a batch is run with accounts that note each of them.
-/

namespace TradeRules

variable {α σ ν : Type}

/-- Accounts that note each question with its answer. -/
def Ledger.noted (accounts : String → StateM σ (Except String α)) (user : String) :
    StateM (Ledger α × σ) (Except String α) := fun (calls, world) =>
  let (answer, world) := accounts user world
  (answer, (calls ++ [(user, answer)], world))

/-- An action that leaves notes alone. -/
def unnoted {β : Type} (x : StateM σ β) : StateM (ν × σ) β := fun (notes, world) =>
  let (result, world) := x world
  (result, (notes, world))

/-- A traversal leaves notes alone where its steps do. -/
theorem mapM_unnoted {β γ : Type} (f : β → StateM σ γ) (xs : List β) (notes : ν) (world : σ) :
    xs.mapM (fun x => unnoted (f x)) (notes, world) =
      ((xs.mapM f world).1, notes, (xs.mapM f world).2) := by
  induction xs generalizing world with
  | nil => rfl
  | cons x xs ih =>
    have hstep : unnoted (f x) (notes, world) = ((f x world).1, notes, (f x world).2) := rfl
    rw [mapM_cons_run, mapM_cons_run, hstep]
    simp only [ih]

/-- Where the result of each step is known whatever the world, so is that of a traversal. -/
theorem fst_mapM_of_forall {β γ : Type} {f : β → StateM σ γ} {g : β → γ}
    (h : ∀ x world, (f x world).1 = g x) (xs : List β) (world : σ) :
    (xs.mapM f world).1 = xs.map g := by
  induction xs generalizing world with
  | nil => rfl
  | cons x xs ih => rw [mapM_cons_run, List.map_cons, h, ih]

namespace Ledger

/-- Asking one account after another notes those calls. -/
theorem mapM_ask_noted (accounts : String → StateM σ (Except String α)) (users : List String)
    (calls : Ledger α) (world : σ) :
    users.mapM (ask (noted accounts)) (calls, world) =
      ((users.mapM (ask accounts) world).1, calls ++ (users.mapM (ask accounts) world).1,
        (users.mapM (ask accounts) world).2) := by
  induction users generalizing calls world with
  | nil => exact Prod.ext rfl (Prod.ext (List.append_nil calls).symm rfl)
  | cons user users ih =>
    have hask : ask (noted accounts) user (calls, world) =
        ((ask accounts user world).1, calls ++ [(ask accounts user world).1],
          (ask accounts user world).2) := rfl
    rw [mapM_cons_run, mapM_cons_run, hask]
    simp only [ih, List.append_assoc, List.singleton_append]

/-- The calls of one account after another are on those users. -/
theorem map_fst_mapM_ask (accounts : String → StateM σ (Except String α)) (users : List String)
    (world : σ) : (users.mapM (ask accounts) world).1.map Prod.fst = users := by
  induction users generalizing world with
  | nil => rfl
  | cons user users ih =>
    rw [mapM_cons_run, List.map_cons, ih]
    rfl

/-- Where accounts answer a user always alike, so do the calls. -/
theorem mapM_ask_of_forall {accounts : String → StateM σ (Except String α)}
    {answer : String → Except String α} (h : ∀ user world, (accounts user world).1 = answer user)
    (users : List String) (world : σ) :
    (users.mapM (ask accounts) world).1 = users.map fun user => (user, answer user) := by
  have hask : ∀ user world, (ask accounts user world).1 = (user, answer user) := fun user world =>
    congrArg (Prod.mk user) (h user world)
  exact fst_mapM_of_forall hask users world

/-- Who is in a ledger has an answer there. -/
theorem exists_answer {ledger : Ledger α} {user : String} (h : user ∈ ledger.map Prod.fst) :
    ∃ answer, (user, answer) ∈ ledger ∧ answers ledger user = some answer := by
  cases hanswer : ledger.lookup user with
  | none => exact absurd h (lookup_eq_none_iff.1 hanswer)
  | some answer =>
    obtain ⟨before, after, rfl, -⟩ := List.lookup_eq_some_iff.1 hanswer
    exact ⟨answer, by simp, hanswer⟩

/-- The cash to size a rule with, where accounts answer a user always alike. -/
theorem fst_cashAfresh {accounts : String → StateM σ (Except String α)}
    {answer : String → Except String α} (h : ∀ user world, (accounts user world).1 = answer user)
    (rule : Rule) (world : σ) :
    (cashAfresh accounts rule world).1 = fundsOf (fun user => some (answer user)) rule := by
  unfold cashAfresh fundsOf
  cases rule.sizing with
  | percentage => exact congrArg funds (h rule.user world)
  | fixed | expression => rfl

end Ledger

namespace Batch

variable [Scalar α]

/-- Runs a batch without a ledger: every rule that is to pay asks its user's account. -/
def runAfresh {m : Type → Type} [Monad m] (source : Request → m (Answer α))
    (accounts : String → m (Except String α)) (settings : BatchSettings) (rules : List Rule) :
    m (Outcome α) := do
  judgeAll (Ledger.cashAfresh accounts) (cases (groups rules) (← fetch source settings rules))

/-- Where an action on a world has a known result, so has judging a rule with it. -/
theorem fst_entry {cash : Rule → StateM σ (Except (SizingError α) (Option α))}
    {answers : String → Option (Except String α)}
    (h : ∀ rule world, (cash rule world).1 = Ledger.fundsOf answers rule)
    (c : Rule × Except SourceError (Series α)) (world : σ) :
    (entry cash c world).1 = entryOn answers c := by
  by_cases hfires : Fires c
  · rw [entry_of_fires hfires]
    exact congrArg (fun answer => Entry.mk c.1 (verdict answer c)) (h c.1 world)
  · rw [entry_of_not_fires hfires (Ledger.fundsOf answers c.1)]
    rfl

/-- What a batch comes to in a world: its histories are fetched, the accounts of the users who are to
pay are asked, and then nothing else happens. -/
theorem run_eq_outcomeOn (source : Request → StateM σ (Answer α))
    (accounts : String → StateM σ (Except String α)) (settings : BatchSettings)
    (rules : List Rule) {world world' : σ} {histories : List (Except SourceError (Series α))}
    (hfetch : fetch source settings rules world = (histories, world')) :
    run source accounts settings rules world =
      ((payers (cases (groups rules) histories)).mapM (Ledger.ask accounts) world').map
        (fun calls => outcomeOn (Ledger.answers calls) (cases (groups rules) histories)) id := by
  have hjudge := congrFun (judgeAnswers_eq accounts rules histories) world'
  have hrun : run source accounts settings rules world =
      judgeAnswers accounts rules (fetch source settings rules world).1
        (fetch source settings rules world).2 := rfl
  rw [hrun, hfetch]
  exact hjudge

/-- Fetching leaves notes alone where the source does. -/
theorem fetch_unnoted (source : Request → StateM σ (Answer α)) (settings : BatchSettings)
    (rules : List Rule) (notes : ν) (world : σ) :
    fetch (fun r => unnoted (source r)) settings rules (notes, world) =
      ((fetch source settings rules world).1, notes, (fetch source settings rules world).2) :=
  mapM_unnoted (fetchOne source) (plan α settings rules) notes world

/-- Noting the calls changes nothing else. -/
theorem run_noted (source : Request → StateM σ (Answer α))
    (accounts : String → StateM σ (Except String α)) (settings : BatchSettings)
    (rules : List Rule) {world world' : σ} {histories : List (Except SourceError (Series α))}
    (hfetch : fetch source settings rules world = (histories, world')) :
    run (fun r => unnoted (source r)) (Ledger.noted accounts) settings rules ([], world) =
      ((payers (cases (groups rules) histories)).mapM (Ledger.ask accounts) world').map
        (fun calls => outcomeOn (Ledger.answers calls) (cases (groups rules) histories))
        (fun last =>
          (((payers (cases (groups rules) histories)).mapM (Ledger.ask accounts) world').1,
            last)) := by
  have hnoted := fetch_unnoted source settings rules ([] : Ledger α) world
  rw [hfetch] at hnoted
  rw [run_eq_outcomeOn _ _ settings rules hnoted, Ledger.mapM_ask_noted]
  rfl

/-- Where accounts answer a user always alike, what a batch without a ledger comes to. -/
theorem fst_runAfresh (source : Request → StateM σ (Answer α))
    {accounts : String → StateM σ (Except String α)} {answer : String → Except String α}
    (h : ∀ user world, (accounts user world).1 = answer user) (settings : BatchSettings)
    (rules : List Rule) (world : σ) :
    (runAfresh source accounts settings rules world).1 =
      outcomeOn (fun user => some (answer user))
        (cases (groups rules) (fetch source settings rules world).1) := by
  have hrun : (runAfresh source accounts settings rules world).1 =
      (judgeAll (Ledger.cashAfresh accounts)
        (cases (groups rules) (fetch source settings rules world).1)
        (fetch source settings rules world).2).1 := rfl
  rw [hrun, judgeAll_eq]
  exact congrArg Outcome.empty.recordAll
    (fst_mapM_of_forall (fst_entry (Ledger.fst_cashAfresh h)) _ _)

/-- Whatever source and accounts answer and remember, the accounts that a batch asks are those of the
users who have a rule by percentage that fires on the history of its symbol, each once, in the
order in which these rules are judged. Such a rule is sized with that one answer, be it a refusal. And
where the answers depend on the users alone, asking for every rule comes to the same outcome. -/
theorem run_calls_payers_once (rules : List Rule) (settings : BatchSettings)
    (source : Request → StateM σ (Answer α)) (accounts : String → StateM σ (Except String α))
    (world : σ) :
    ∃ (history : String → Except SourceError (Series α)) (outcome : Outcome α) (calls : Ledger α)
        (last : σ),
      (fetch source settings rules world).1 = (symbols rules).map history ∧
      run source accounts settings rules world = (outcome, last) ∧
      run (fun r => unnoted (source r)) (Ledger.noted accounts) settings rules ([], world) =
        (outcome, calls, last) ∧
      outcome.entries.map Entry.rule = (paired rules history).map Prod.fst ∧
      calls.map Prod.fst =
        (((paired rules history).filter fun c => Pays c).map fun c => c.1.user).eraseDups ∧
      (calls.map Prod.fst).Nodup ∧
      outcome.entries = (paired rules history).map (fun c =>
        ⟨c.1, verdict (Ledger.fundsOf calls.answers c.1) c⟩) ∧
      (∀ c ∈ paired rules history, Pays c → ∃ answer, (c.1.user, answer) ∈ calls ∧
        Ledger.fundsOf calls.answers c.1 = Ledger.funds answer ∧
        ∀ reason, answer = .error reason → verdict (Ledger.fundsOf calls.answers c.1) c =
          .error (.rule (.sizing (.cashUnavailable reason)))) ∧
      ∀ answer : String → Except String α,
        (∀ user world, (accounts user world).1 = answer user) →
        (runAfresh source accounts settings rules world).1 = outcome := by
  obtain ⟨history, hhistory⟩ := exists_history source settings rules world
  have hfetch : fetch source settings rules world =
      ((symbols rules).map history, (fetch source settings rules world).2) :=
    Prod.ext hhistory.symm rfl
  have hrun := run_eq_outcomeOn source accounts settings rules hfetch
  have hnoted := run_noted source accounts settings rules hfetch
  rw [cases_groups] at hrun hnoted
  rcases hasked : (payers (paired rules history)).mapM (Ledger.ask accounts)
    (fetch source settings rules world).2 with ⟨calls, last⟩
  rw [hasked] at hrun hnoted
  have hcalls := Ledger.map_fst_mapM_ask accounts (payers (paired rules history))
    (fetch source settings rules world).2
  rw [hasked] at hcalls
  have hentries := entries_outcomeOn (Ledger.answers calls) (paired rules history)
  refine ⟨history, _, calls, last, hhistory.symm, hrun, hnoted, ?_, hcalls, ?_, hentries, ?_, ?_⟩
  · change (outcomeOn (Ledger.answers calls) (paired rules history)).entries.map Entry.rule = _
    rw [hentries, List.map_map]
    rfl
  · rw [hcalls]
    exact nodup_eraseDups _
  · intro c hc hpays
    have huser : c.1.user ∈ calls.map Prod.fst := by
      rw [hcalls]
      exact mem_payers.2 ⟨c, hc, hpays, rfl⟩
    obtain ⟨answer, hmem, hanswer⟩ := Ledger.exists_answer huser
    have hfunds : Ledger.fundsOf (Ledger.answers calls) c.1 = Ledger.funds answer := by
      simp only [Ledger.fundsOf, hpays.1, hanswer, Option.elim_some]
    refine ⟨answer, hmem, hfunds, ?_⟩
    rintro reason rfl
    rw [hfunds]
    exact verdict_of_error hpays.2 _
  · intro answer hanswer
    have hknown := Ledger.mapM_ask_of_forall hanswer (payers (paired rules history))
      (fetch source settings rules world).2
    rw [hasked] at hknown
    rw [fst_runAfresh source hanswer, ← hhistory, cases_groups]
    refine outcomeOn_congr fun user huser => ?_
    rw [← hcalls] at huser
    obtain ⟨found, hmem, hfound⟩ := Ledger.exists_answer huser
    have hsame : found = answer user := by
      rw [hknown, List.mem_map] at hmem
      obtain ⟨_, -, hpair⟩ := hmem
      cases hpair
      rfl
    rw [hfound, hsame]

/-- Two users are to pay, one of whom is refused and has two rules; a third one has a rule that does
not fire. -/
theorem run_calls_payers_once_refusal :
    let bar : Bar Float := ⟨⟨2024, 3, 1, 0, 0, 0, by decide, by decide⟩, 50, 50, 50, 50, 1000⟩
    let source : Request → StateM Nat (Answer Float) := fun r => pure (.series ⟨r.symbol, [bar]⟩)
    let answer : String → Except String Float := fun user =>
      if user = "bob" then .error "closed" else .ok 10000
    let accounts : String → StateM Nat (Except String Float) := fun user asked =>
      (answer user, asked + 1)
    let rule (id user symbol condition : String) : Rule :=
      ⟨id, user, symbol, condition, .buy, .percentage, "50", true⟩
    let rules := [rule "1" "bob" "A" "close > 1", rule "2" "carol" "A" "close > 100",
      rule "3" "alice" "B" "close > 1", rule "4" "bob" "A" "close > 1"]
    (∀ user world, (accounts user world).1 = answer user) ∧
      ∃ (outcome : Outcome Float) (calls : Ledger Float) (last : Nat),
        run (fun r => unnoted (source r)) (Ledger.noted accounts) ⟨30⟩ rules ([], 0) =
          (outcome, calls, last) ∧
        calls.map Prod.fst = ["bob", "alice"] ∧
        (runAfresh source accounts ⟨30⟩ rules 0).1 = outcome := by
  intro bar source answer accounts rule rules
  have halike : ∀ user world, (accounts user world).1 = answer user := fun _ _ => rfl
  obtain ⟨-, outcome, calls, last, -, -, hnoted, -, -, -, -, -, hafresh⟩ :=
    run_calls_payers_once rules ⟨30⟩ source accounts 0
  have hcalls : (run (fun r => unnoted (source r)) (Ledger.noted accounts) ⟨30⟩ rules
      ([], 0)).2.1.map Prod.fst = ["bob", "alice"] := by
    decide +kernel
  rw [hnoted] at hcalls
  exact ⟨halike, outcome, calls, last, hnoted, hcalls, hafresh answer halike⟩

end Batch

end TradeRules
