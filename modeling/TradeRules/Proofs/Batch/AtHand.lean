import TradeRules.Proofs.Batch.Interleaving
import TradeRules.Proofs.Batch.Snapshot

/-!
# Histories at hand

A batch can be run against a source and accounts, or be judged on histories that are at hand, with one
amount of cash for everybody. The latter hands the cash to every rule that fires, the former only to
those sized by percentage; but no other rule looks at it. So both come to the same where the source
either answers or has no data, and all accounts hold that amount (`Batch.run_eq_evaluate`).
-/

namespace TradeRules

variable {α : Type} [Scalar α]

/-- The amount of cash does not matter to a rule that is not sized by percentage. -/
theorem Rule.evaluate_of_ne {r : Rule} (h : r.sizing ≠ .percentage) (s : Series α)
    (cash cash' : Option α) :
    r.evaluate s (pure (.ok cash) : Id _) = r.evaluate s (pure (.ok cash') : Id _) := by
  simp only [evaluate, pure_bind, trade_of_ne h _ cash cash']

/-- What a source answers about a symbol: its history, or that there is no data. -/
def Answer.ofHistory (symbol : String) : Option (Series α) → Answer α
  | some s => .series s
  | none => .refused (.noData symbol)

namespace Batch

/-- The amount of cash does not matter to the verdict on a rule that is not sized by percentage. -/
theorem verdict_of_ne {c : Rule × Except SourceError (Series α)} (h : c.1.sizing ≠ .percentage)
    (cash cash' : Option α) : verdict (.ok cash) c = verdict (.ok cash') c := by
  obtain ⟨rule, history⟩ := c
  cases history with
  | error e => rfl
  | ok s => simp only [verdict, judge, Rule.evaluate_of_ne h s cash cash']

/-- Where all accounts hold one amount, a rule is judged as with that amount at hand. -/
theorem entryOn_of_forall_eq (cash : α) (c : Rule × Except SourceError (Series α)) :
    entryOn (fun _ => some (.ok cash)) c = ⟨c.1, verdict (.ok (some cash)) c⟩ := by
  by_cases h : c.1.sizing = .percentage
  · simp only [entryOn, Ledger.fundsOf, h, Option.elim_some, Ledger.funds]
  · rw [entryOn, Ledger.fundsOf_of_ne h, verdict_of_ne h none (some cash)]

/-- The history for a symbol among those at hand. -/
def historyAtHand (histories : String → Option (Series α)) (s : String) :
    Except SourceError (Series α) :=
  (Answer.ofHistory s (histories s)).toExcept s

/-- Judging on histories at hand is judging every rule on that of its symbol. -/
theorem evaluate_eq (rules : List Rule) (histories : String → Option (Series α)) (cash : α) :
    evaluate rules histories (some cash) =
      outcomeOn (fun _ => some (.ok cash)) (paired rules (historyAtHand histories)) := by
  have hfound : (groups rules).map (fun g => match histories g.symbol with
      | some s => .ok s
      | none => .error (.noData g.symbol)) = (symbols rules).map (historyAtHand histories) := by
    rw [groups_eq, List.map_map]
    refine List.map_congr_left fun s _ => ?_
    simp only [Function.comp_apply, historyAtHand]
    cases histories s <;> rfl
  have hentry : entry (m := Id) (fun _ => pure (.ok (some cash))) =
      fun c => pure (entryOn (fun _ => some (.ok cash)) c) := by
    funext c
    rw [entryOn_of_forall_eq]
    rfl
  have hjudge : evaluate rules histories (some cash) =
      Id.run (judgeAll (fun _ => pure (.ok (some cash)))
        (cases (groups rules) ((symbols rules).map (historyAtHand histories)))) := by
    rw [← hfound]
    rfl
  rw [hjudge, judgeAll_eq, hentry, List.mapM_pure, cases_groups]
  rfl

variable {σ : Type}

/-- Where all accounts hold one amount, running a batch is judging it on that amount. -/
theorem fst_judgeAnswers {accounts : String → StateM σ (Except String α)} {cash : α}
    (haccounts : ∀ user world, (accounts user world).1 = .ok cash) (rules : List Rule)
    (histories : List (Except SourceError (Series α))) (world : σ) :
    (judgeAnswers accounts rules histories world).1 =
      outcomeOn (fun _ => some (.ok cash)) (cases (groups rules) histories) := by
  have hjudge := congrArg Prod.fst (congrFun (judgeAnswers_eq accounts rules histories) world)
  refine hjudge.trans (outcomeOn_congr fun user huser => ?_)
  have hcalls := Ledger.mapM_ask_of_forall haccounts (payers (cases (groups rules) histories)) world
  have hasked := Ledger.map_fst_mapM_ask accounts (payers (cases (groups rules) histories)) world
  rw [← hasked] at huser
  obtain ⟨answer, hmem, hanswer⟩ := Ledger.exists_answer huser
  rw [hcalls, List.mem_map] at hmem
  obtain ⟨_, -, hpair⟩ := hmem
  cases hpair
  exact hanswer

/-- Where each symbol is answered with a history or that there is no data, and all accounts hold one
amount, judging on the answers is judging on these histories at hand. -/
theorem exists_histories {answer : String → Answer α} {rules : List Rule}
    (hanswer : ∀ s ∈ symbols rules, ∃ history, answer s = .ofHistory s history) :
    ∃ histories : String → Option (Series α),
      (∀ s ∈ symbols rules, answer s = .ofHistory s (histories s)) ∧
      ∀ {accounts : String → StateM σ (Except String α)} {cash : α},
        (∀ user found, (accounts user found).1 = .ok cash) → ∀ world,
          (judgeAnswers accounts rules ((symbols rules).map fun s => (answer s).toExcept s)
            world).1 = evaluate rules histories (some cash) := by
  have hchoice : ∀ s, ∃ history, s ∈ symbols rules → answer s = .ofHistory s history := by
    intro s
    by_cases hs : s ∈ symbols rules
    · obtain ⟨history, hhistory⟩ := hanswer s hs
      exact ⟨history, fun _ => hhistory⟩
    · exact ⟨none, fun hs' => absurd hs' hs⟩
  choose histories hhistories using hchoice
  refine ⟨histories, hhistories, fun haccounts world => ?_⟩
  have hfound : ((symbols rules).map fun s => (answer s).toExcept s) =
      (symbols rules).map (historyAtHand histories) :=
    List.map_congr_left fun s hs => congrArg (Answer.toExcept s) (hhistories s hs)
  rw [fst_judgeAnswers haccounts, hfound, cases_groups, evaluate_eq]

/-- Where a source answers every planned request with a history or that there is no data, and all
accounts hold one amount of cash, running a batch comes to what judging it comes to on the histories
that the symbols were answered with and on that amount. The same holds however the fetches of the
batch interleave, whatever the source remembers of them. -/
theorem run_eq_evaluate (rules : List Rule) (settings : BatchSettings)
    (accounts : String → StateM σ (Except String α)) (cash : α)
    (haccounts : ∀ user found, (accounts user found).1 = .ok cash) :
    (∀ (source : Request → StateM σ (Answer α)) (world : σ),
      (∀ request ∈ plan α settings rules, ∀ found, ∃ history,
        (source request found).1 = .ofHistory request.symbol history) →
      ∃ histories : String → Option (Series α),
        (fetch source settings rules world).1 = (symbols rules).map (historyAtHand histories) ∧
        (run source accounts settings rules world).1 = evaluate rules histories (some cash)) ∧
    ∀ {τ : Type} (provider : Provider σ τ α) (world : σ) (f : Fetches σ τ α),
      Fetches.Interleaves provider (.start (plan α settings rules) world) f → f.Finished →
      (∀ a ∈ f.answers, ∃ history, a.2 = .ofHistory a.1.symbol history) →
      ∃ histories : String → Option (Series α),
        f.answers.Perm ((plan α settings rules).map fun r =>
          (r, .ofHistory r.symbol (histories r.symbol))) ∧
        (finish accounts rules f).1 = evaluate rules histories (some cash) := by
  constructor
  · intro source world hsource
    obtain ⟨worldAt, hfetch⟩ := exists_worlds_fetch source settings rules world
    have hanswer : ∀ s ∈ symbols rules, ∃ history,
        (source (request α settings rules s) (worldAt s)).1 = .ofHistory s history := by
      intro s hs
      refine hsource (request α settings rules s) ?_ (worldAt s)
      rw [plan_eq]
      exact List.mem_map_of_mem hs
    obtain ⟨histories, hhistories, hjudge⟩ := exists_histories (σ := σ) hanswer
    refine ⟨histories, ?_, ?_⟩
    · rw [hfetch]
      exact List.map_congr_left fun s hs => congrArg (Answer.toExcept s) (hhistories s hs)
    · have hrun : run source accounts settings rules world =
          judgeAnswers accounts rules (fetch source settings rules world).1
            (fetch source settings rules world).2 := rfl
      rw [hrun, hfetch]
      exact hjudge haccounts _
  · intro τ provider world f h hfinished hanswered
    obtain ⟨answer, -, hanswers, hfound⟩ := exists_answers h hfinished
    have hanswer : ∀ s ∈ symbols rules, ∃ history, answer s = .ofHistory s history := by
      intro s hs
      refine hanswered (request α settings rules s, answer s) (hanswers.mem_iff.2 ?_)
      rw [plan_eq, List.map_map]
      exact List.mem_map.2 ⟨s, hs, rfl⟩
    obtain ⟨histories, hhistories, hjudge⟩ := exists_histories (σ := σ) hanswer
    refine ⟨histories, ?_, ?_⟩
    · have hpairs : ((plan α settings rules).map fun r => (r, answer r.symbol)) =
          (plan α settings rules).map fun r => (r, .ofHistory r.symbol (histories r.symbol)) := by
        rw [plan_eq, List.map_map, List.map_map]
        exact List.map_congr_left fun s hs => congrArg (Prod.mk _) (hhistories s hs)
      rw [← hpairs]
      exact hanswers
    · rw [finish, hfound]
      exact hjudge haccounts f.world

/-- Two rules on `A`, the first by percentage, and one on `B`, of which there is no data: run against a
source, and with the fetch for `B` begun and ended within that for `A`. -/
theorem run_eq_evaluate_missing :
    let bar : Bar Float := ⟨⟨2024, 4, 2, 0, 0, 0, by decide, by decide⟩, 50, 50, 50, 50, 1000⟩
    let history (r : Request) : Option (Series Float) :=
      if r.symbol = "A" then some ⟨"A", [bar]⟩ else none
    let answer (r : Request) : Answer Float := .ofHistory r.symbol (history r)
    let source : Request → StateM Nat (Answer Float) := fun r asked => (answer r, asked + 1)
    let accounts : String → StateM Nat (Except String Float) := fun _ asked => (.ok 10000, asked + 1)
    let rule (id symbol : String) (sizing : Sizing) : Rule :=
      ⟨id, "alice", symbol, "close > 1", .buy, sizing, "50", true⟩
    let rules := [rule "1" "A" .percentage, rule "2" "B" .percentage, rule "3" "A" .fixed]
    (∃ histories, (run source accounts ⟨40⟩ rules 0).1 = evaluate rules histories (some 10000)) ∧
      (run source accounts ⟨40⟩ rules 0).1.tally = ⟨2, 0, 1⟩ ∧
      ∃ f : Fetches Nat Request Float,
        Fetches.Interleaves (.ofSource source) (.start (plan Float ⟨40⟩ rules) 0) f ∧
        f.requests = [⟨"A", 40⟩, ⟨"B", 40⟩] ∧
        f.answers.map Prod.fst = [⟨"B", 40⟩, ⟨"A", 40⟩] ∧
        ∃ histories, (finish accounts rules f).1 = evaluate rules histories (some 10000) := by
  intro bar history answer source accounts rule rules
  have haccounts : ∀ user found, (accounts user found).1 = .ok 10000 := fun _ _ => rfl
  have hboth := run_eq_evaluate rules ⟨40⟩ accounts 10000 haccounts
  obtain ⟨histories, -, hrun⟩ := hboth.1 source 0 fun r _ found => ⟨history r, rfl⟩
  refine ⟨⟨histories, hrun⟩, by decide +kernel, ?_⟩
  let a : Request := ⟨"A", 40⟩
  let b : Request := ⟨"B", 40⟩
  have hplan : plan Float ⟨40⟩ rules = [a, b] := by decide +kernel
  have h₁ : Fetches.Step (.ofSource source)
      ⟨0, [] ++ (a, Progress.waiting) :: [(b, Progress.waiting)], []⟩
      ⟨0, [] ++ (a, Progress.running a) :: [(b, Progress.waiting)], [] ++ [FetchEvent.asked a]⟩ :=
    .receive rfl
  have h₂ : Fetches.Step (.ofSource source)
      ⟨0, [(a, Progress.running a)] ++ (b, Progress.waiting) :: [], [FetchEvent.asked a]⟩
      ⟨0, [(a, Progress.running a)] ++ (b, Progress.running b) :: [],
        [FetchEvent.asked a] ++ [FetchEvent.asked b]⟩ := .receive rfl
  have h₃ : Fetches.Step (.ofSource source)
      ⟨0, [(a, Progress.running a)] ++ (b, Progress.running b) :: [], [.asked a, .asked b]⟩
      ⟨1, [(a, Progress.running a)] ++ (b, Progress.done (answer b)) :: [],
        [FetchEvent.asked a, FetchEvent.asked b] ++ [FetchEvent.answered b (answer b)]⟩ :=
    .finish rfl
  have h₄ : Fetches.Step (.ofSource source)
      ⟨1, [] ++ (a, Progress.running a) :: [(b, Progress.done (answer b))],
        [.asked a, .asked b, .answered b (answer b)]⟩
      ⟨2, [] ++ (a, Progress.done (answer a)) :: [(b, Progress.done (answer b))],
        [FetchEvent.asked a, FetchEvent.asked b, FetchEvent.answered b (answer b)] ++
          [FetchEvent.answered a (answer a)]⟩ := .finish rfl
  let f : Fetches Nat Request Float := ⟨2, [(a, .done (answer a)), (b, .done (answer b))],
    [.asked a, .asked b, .answered b (answer b), .answered a (answer a)]⟩
  have h : Fetches.Interleaves (.ofSource source) (.start (plan Float ⟨40⟩ rules) 0) f := by
    rw [hplan]
    exact .tail (.tail (.tail (.tail .refl h₁) h₂) h₃) h₄
  have hfinished : f.Finished := by
    intro task htask
    simp only [f, List.mem_cons, List.not_mem_nil, or_false] at htask
    rcases htask with rfl | rfl
    · exact ⟨_, rfl⟩
    · exact ⟨_, rfl⟩
  have hanswers : f.answers = [(b, answer b), (a, answer a)] := rfl
  have hanswered : ∀ p ∈ f.answers, ∃ history, p.2 = .ofHistory p.1.symbol history := by
    intro p hp
    rw [hanswers] at hp
    simp only [List.mem_cons, List.not_mem_nil, or_false] at hp
    rcases hp with rfl | rfl
    · exact ⟨history b, rfl⟩
    · exact ⟨history a, rfl⟩
  obtain ⟨histories', -, hfinish⟩ := hboth.2 (.ofSource source) 0 f h hfinished hanswered
  exact ⟨f, h, rfl, rfl, histories', hfinish⟩

end Batch

end TradeRules
