import TradeRules.Proofs.Batch.Fetch
import TradeRules.Proofs.Batch.Ledger

/-!
# Fetches that run at the same time

The histories of a batch may be fetched at the same time: a fetch is a task that receives its request
and then proceeds, step by step, on a world that it shares with the others, until it has an answer.
In an interleaving any task takes the next step. However the steps fall, no request is made that is not
planned or twice (`Fetches.Kept`), and once all tasks are done each rule is judged on the answer to
the request for its own symbol. Running the tasks in turn is one of the interleavings
(`Batch.exists_interleaves_fetch`).
-/

namespace TradeRules

variable {σ τ α : Type}

/-- A source that takes its time to answer, with a world that all requests share. -/
structure Provider (σ τ α : Type) where
  /-- A request comes in. -/
  receive : Request → StateM σ τ
  /-- Work on a request goes on, or ends with an answer. -/
  proceed : τ → StateM σ (τ ⊕ Answer α)

/-- A source that answers at once: a task asks it in its last step. -/
def Provider.ofSource (source : Request → StateM σ (Answer α)) : Provider σ Request α where
  receive := pure
  proceed r := Sum.inr <$> source r

/-- How far a fetch has come. -/
inductive Progress (τ α : Type) where
  /-- Its request was not made yet. -/
  | waiting
  /-- Its request was made, and there is no answer yet. -/
  | running (t : τ)
  /-- There is an answer. -/
  | done (a : Answer α)

/-- What is seen of a fetch from outside. -/
inductive FetchEvent (α : Type) where
  /-- A request is made. -/
  | asked (r : Request)
  /-- A request is answered. -/
  | answered (r : Request) (a : Answer α)

/-- The fetches of a batch under way. -/
structure Fetches (σ τ α : Type) where
  /-- What the source remembers. -/
  world : σ
  /-- The planned requests, each with the progress of its fetch. -/
  tasks : List (Request × Progress τ α)
  /-- What has been seen so far. -/
  events : List (FetchEvent α)

namespace FetchEvent

/-- The request that is made. -/
def request? : FetchEvent α → Option Request
  | .asked r => some r
  | .answered _ _ => none

/-- The request that is answered, with the answer. -/
def answer? : FetchEvent α → Option (Request × Answer α)
  | .asked _ => none
  | .answered r a => some (r, a)

end FetchEvent

namespace Progress

/-- The request of a fetch that has made it. -/
def request? : Request × Progress τ α → Option Request
  | (_, .waiting) => none
  | (r, .running _) | (r, .done _) => some r

/-- The request of a fetch that is done, with its answer. -/
def answer? : Request × Progress τ α → Option (Request × Answer α)
  | (r, .done a) => some (r, a)
  | (_, .waiting) | (_, .running _) => none

end Progress

namespace Fetches

/-- All fetches are set up, and none has begun. -/
def start (plan : List Request) (world : σ) : Fetches σ τ α :=
  ⟨world, plan.map (·, .waiting), []⟩

/-- The requests that were made, in this order. -/
def requests (f : Fetches σ τ α) : List Request := f.events.filterMap FetchEvent.request?

/-- The answers that came, in this order. -/
def answers (f : Fetches σ τ α) : List (Request × Answer α) :=
  f.events.filterMap FetchEvent.answer?

/-- All fetches are done. -/
def Finished (f : Fetches σ τ α) : Prop := ∀ task ∈ f.tasks, ∃ a, task.2 = .done a

/-- The histories that came of the fetches which are done, in the order of the plan. -/
def histories (f : Fetches σ τ α) : List (Except SourceError (Series α)) :=
  (f.tasks.filterMap Progress.answer?).map fun (r, a) => a.toExcept r.symbol

/-- One task takes one step. -/
inductive Step (provider : Provider σ τ α) : Fetches σ τ α → Fetches σ τ α → Prop where
  /-- A task makes its request. -/
  | receive {world world' : σ} {before after : List (Request × Progress τ α)} {r : Request} {t : τ}
      {events : List (FetchEvent α)} (h : provider.receive r world = (t, world')) :
      Step provider ⟨world, before ++ (r, Progress.waiting) :: after, events⟩
        ⟨world', before ++ (r, Progress.running t) :: after, events ++ [FetchEvent.asked r]⟩
  /-- A task goes on. -/
  | proceed {world world' : σ} {before after : List (Request × Progress τ α)} {r : Request}
      {t t' : τ} {events : List (FetchEvent α)}
      (h : provider.proceed t world = (.inl t', world')) :
      Step provider ⟨world, before ++ (r, Progress.running t) :: after, events⟩
        ⟨world', before ++ (r, Progress.running t') :: after, events⟩
  /-- A task ends with an answer. -/
  | finish {world world' : σ} {before after : List (Request × Progress τ α)} {r : Request} {t : τ}
      {a : Answer α} {events : List (FetchEvent α)}
      (h : provider.proceed t world = (.inr a, world')) :
      Step provider ⟨world, before ++ (r, Progress.running t) :: after, events⟩
        ⟨world', before ++ (r, Progress.done a) :: after, events ++ [FetchEvent.answered r a]⟩

/-- The tasks take any number of steps, in any order. -/
def Interleaves (provider : Provider σ τ α) : Fetches σ τ α → Fetches σ τ α → Prop :=
  Relation.ReflTransGen (Step provider)

/-- What every step keeps: there is a task for each planned request, what was asked are the requests
of the tasks that began, and what was answered are the answers of the tasks that are done. -/
structure Kept (plan : List Request) (f : Fetches σ τ α) : Prop where
  /-- The tasks are those of the plan. -/
  map_tasks : f.tasks.map Prod.fst = plan
  /-- What was asked belongs to a task each. -/
  requests_perm : f.requests.Perm (f.tasks.filterMap Progress.request?)
  /-- What was answered belongs to a task each. -/
  answers_perm : f.answers.Perm (f.tasks.filterMap Progress.answer?)

/-- At the start nothing was asked. -/
theorem kept_start (plan : List Request) (world : σ) :
    Kept plan (start plan world : Fetches σ τ α) := by
  have hrequests : (start plan world : Fetches σ τ α).tasks.filterMap Progress.request? = [] := by
    simp [start, Progress.request?]
  have hanswers : (start plan world : Fetches σ τ α).tasks.filterMap Progress.answer? = [] := by
    simp [start, Progress.answer?]
  refine ⟨?_, ?_, ?_⟩
  · rw [start, List.map_map]
    exact List.map_id plan
  · rw [hrequests]
    exact List.Perm.refl _
  · rw [hanswers]
    exact List.Perm.refl _

/-- Where one entry of a row gives something new and the same comes last in a log, the log still
holds what the row gives. -/
theorem filterMap_perm_change {β γ δ : Type} {f : β → Option δ} {g : γ → Option δ}
    {before after : List β} {x x' : β} {log more : List γ}
    (h : (log.filterMap g).Perm ((before ++ x :: after).filterMap f))
    (hx : (f x).toList ++ more.filterMap g = (f x').toList) :
    ((log ++ more).filterMap g).Perm ((before ++ x' :: after).filterMap f) := by
  have hrow (y : β) : (before ++ y :: after).filterMap f =
      before.filterMap f ++ ((f y).toList ++ after.filterMap f) := by
    rw [List.filterMap_append, List.filterMap_cons]
    cases f y <;> rfl
  rw [hrow] at h
  rw [hrow, ← hx, List.filterMap_append, List.append_assoc]
  have hlog := h.append_right (more.filterMap g)
  rw [List.append_assoc, List.append_assoc] at hlog
  have hswap : ((f x).toList ++ (after.filterMap f ++ more.filterMap g)).Perm
      ((f x).toList ++ (more.filterMap g ++ after.filterMap f)) :=
    List.perm_append_comm.append_left _
  exact hlog.trans (hswap.append_left _)

/-- Whichever task takes a step, what is kept is kept. -/
theorem Kept.step {provider : Provider σ τ α} {plan : List Request} {f f' : Fetches σ τ α}
    (h : Kept plan f) (hstep : Step provider f f') : Kept plan f' := by
  obtain ⟨htasks, hrequests, hanswers⟩ := h
  cases hstep with
  | receive hreceive =>
    exact ⟨by simpa using htasks, filterMap_perm_change hrequests rfl,
      filterMap_perm_change hanswers rfl⟩
  | @proceed _ _ _ _ _ _ _ events hproceed =>
    -- Nothing is seen of this step, which is a log with nothing added to it.
    rw [← List.append_nil events]
    exact ⟨by simpa using htasks, filterMap_perm_change hrequests rfl,
      filterMap_perm_change hanswers rfl⟩
  | finish hproceed =>
    exact ⟨by simpa using htasks, filterMap_perm_change hrequests rfl,
      filterMap_perm_change hanswers rfl⟩

/-- However the steps fall, what is kept is kept. -/
theorem kept_of_interleaves {provider : Provider σ τ α} {plan : List Request} {world : σ}
    {f : Fetches σ τ α} (h : Interleaves provider (start plan world) f) : Kept plan f := by
  induction h with
  | refl => exact kept_start plan world
  | tail _ hstep ih => exact ih.step hstep

/-- A task makes its own request at most. -/
theorem filterMap_request?_sublist (tasks : List (Request × Progress τ α)) :
    (tasks.filterMap Progress.request?).Sublist (tasks.map Prod.fst) := by
  induction tasks with
  | nil => exact List.Sublist.refl _
  | cons task tasks ih =>
    obtain ⟨r, progress⟩ := task
    cases progress with
    | waiting => exact ih.cons r
    | running t => exact ih.cons_cons r
    | done a => exact ih.cons_cons r

/-- No request is made that is not planned, or more often than it is planned. -/
theorem Kept.subperm {plan : List Request} {f : Fetches σ τ α} (h : Kept plan f) :
    f.requests.Subperm plan := by
  have hsub := (filterMap_request?_sublist f.tasks).subperm
  rw [h.map_tasks] at hsub
  exact h.requests_perm.subperm.trans hsub

/-- A plan without doubles in which each request was answered. -/
def answered (plan : List Request) (answer : String → Answer α) :
    List (Request × Progress τ α) := plan.map fun r => (r, .done (answer r.symbol))

theorem filterMap_request?_answered (plan : List Request) (answer : String → Answer α) :
    (answered plan answer : List (Request × Progress τ α)).filterMap Progress.request? = plan := by
  simp [answered, Function.comp_def, Progress.request?]

theorem filterMap_answer?_answered (plan : List Request) (answer : String → Answer α) :
    (answered plan answer : List (Request × Progress τ α)).filterMap Progress.answer? =
      plan.map fun r => (r, answer r.symbol) := by
  simp [answered, Function.comp_def, Progress.answer?]

/-- Once all fetches of a batch are done, each symbol has its answer. -/
theorem exists_tasks_eq [Scalar α] {settings : BatchSettings} {rules : List Rule}
    {f : Fetches σ τ α} (htasks : f.tasks.map Prod.fst = Batch.plan α settings rules)
    (h : f.Finished) :
    ∃ answer : String → Answer α, f.tasks = answered (Batch.plan α settings rules) answer := by
  have hlength : (f.tasks.map Prod.snd).length = (Batch.symbols rules).length := by
    have hplan := congrArg List.length htasks
    rw [Batch.plan_eq, List.length_map, List.length_map] at hplan
    rw [List.length_map, hplan]
  have : Nonempty (Progress τ α) := ⟨.waiting⟩
  obtain ⟨progress, hprogress⟩ := exists_map_eq (Batch.nodup_symbols rules) hlength
  have hdone : ∀ s, ∃ a : Answer α, s ∈ Batch.symbols rules → progress s = .done a := by
    intro s
    by_cases hs : s ∈ Batch.symbols rules
    · have hmem : progress s ∈ f.tasks.map Prod.snd := by
        rw [← hprogress]
        exact List.mem_map.2 ⟨s, hs, rfl⟩
      obtain ⟨task, htask, hsnd⟩ := List.mem_map.1 hmem
      obtain ⟨a, ha⟩ := h task htask
      exact ⟨a, fun _ => hsnd.symm.trans ha⟩
    · exact ⟨.crashed, fun hs' => absurd hs' hs⟩
  choose answer hanswer using hdone
  refine ⟨answer, ?_⟩
  calc f.tasks
      = (f.tasks.map Prod.fst).zip (f.tasks.map Prod.snd) := by
        rw [List.zip_map', List.map_id']
    _ = (Batch.symbols rules).map fun s => (Batch.request α settings rules s, progress s) := by
        rw [htasks, ← hprogress, Batch.plan_eq, List.zip_map']
    _ = answered (Batch.plan α settings rules) answer := by
        rw [answered, Batch.plan_eq, List.map_map]
        exact List.map_congr_left fun s hs => congrArg _ (hanswer s hs)

/-- Where a source answers at once, the tasks may run in turn, and then come to the histories that
are fetched one after another. -/
theorem interleaves_in_turn (source : Request → StateM σ (Answer α)) (rs : List Request)
    (before : List (Request × Progress Request α)) (world : σ) (events : List (FetchEvent α)) :
    let fetched := rs.mapM (Batch.fetchOne source) world
    ∃ done seen,
      Interleaves (.ofSource source) ⟨world, before ++ rs.map (·, Progress.waiting), events⟩
        ⟨fetched.2, before ++ done, seen⟩ ∧
      (∀ task ∈ done, ∃ a, task.2 = .done a) ∧
      (done.filterMap Progress.answer?).map (fun (r, a) => a.toExcept r.symbol) = fetched.1 := by
  induction rs generalizing before world events with
  | nil => exact ⟨[], events, .refl, by simp, rfl⟩
  | cons r rs ih =>
    have hreceive : Step (.ofSource source)
        ⟨world, before ++ (r, Progress.waiting) :: rs.map (·, Progress.waiting), events⟩
        ⟨world, before ++ (r, Progress.running r) :: rs.map (·, Progress.waiting),
          events ++ [FetchEvent.asked r]⟩ :=
      .receive rfl
    have hfinish : Step (.ofSource source)
        ⟨world, before ++ (r, Progress.running r) :: rs.map (·, Progress.waiting),
          events ++ [FetchEvent.asked r]⟩
        ⟨(source r world).2,
          before ++ (r, Progress.done (source r world).1) :: rs.map (·, Progress.waiting),
          events ++ [FetchEvent.asked r] ++ [FetchEvent.answered r (source r world).1]⟩ :=
      .finish rfl
    obtain ⟨done, seen, hrest, hdone, hhistories⟩ :=
      ih (before ++ [(r, Progress.done (source r world).1)]) (source r world).2
        (events ++ [FetchEvent.asked r] ++ [FetchEvent.answered r (source r world).1])
    have hnext (others : List (Request × Progress Request α)) :
        before ++ [(r, Progress.done (source r world).1)] ++ others =
          before ++ (r, Progress.done (source r world).1) :: others := by
      rw [List.append_assoc, List.singleton_append]
    simp only [hnext] at hrest
    refine ⟨(r, .done (source r world).1) :: done, seen,
      .head hreceive (.head hfinish ?_), ?_, ?_⟩
    · rw [mapM_cons_run]
      exact hrest
    · intro task htask
      rcases List.mem_cons.1 htask with rfl | htask
      · exact ⟨_, rfl⟩
      · exact hdone task htask
    · rw [mapM_cons_run, List.filterMap_cons]
      exact congrArg (_ :: ·) hhistories

end Fetches

namespace Batch

variable [Scalar α]

/-- Fetching the histories of a batch one after another is one of the interleavings. -/
theorem exists_interleaves_fetch (source : Request → StateM σ (Answer α))
    (settings : BatchSettings) (rules : List Rule) (world : σ) :
    ∃ f : Fetches σ Request α,
      Fetches.Interleaves (.ofSource source) (.start (plan α settings rules) world) f ∧
      f.Finished ∧
      (f.histories, f.world) = fetch source settings rules world := by
  obtain ⟨done, seen, h, hdone, hhistories⟩ :=
    Fetches.interleaves_in_turn source (plan α settings rules) [] world []
  exact ⟨_, h, hdone, Prod.ext hhistories rfl⟩

/-- What a batch comes to when its fetches are done. -/
def finish (accounts : String → StateM σ (Except String α)) (rules : List Rule)
    (f : Fetches σ τ α) : Outcome α × σ := judgeAnswers accounts rules f.histories f.world

/-- An entry that rests on an answer: it fails if that is a refusal or a breakdown, and is otherwise
judged on the history. -/
def RestsOn (a : Answer α) (entry : Entry α) : Prop :=
  match a with
  | .series s => ∃ cash, entry.verdict = verdict cash (entry.rule, .ok s)
  | .refused e => entry.verdict = .error (.fetch e)
  | .crashed =>
    entry.verdict = .error (.fetch (.failed entry.rule.symbol "fetch thread panicked"))

/-- What is judged on the history in an answer rests on that answer. -/
theorem restsOn_entryOn (answers : String → Option (Except String α)) (rule : Rule) (a : Answer α) :
    RestsOn a (entryOn answers (rule, a.toExcept rule.symbol)) := by
  cases a with
  | series s => exact ⟨_, rfl⟩
  | refused e => rfl
  | crashed => rfl

/-- Where the histories are those in the answers, each entry rests on the answer for its symbol. -/
theorem restsOn_of_mem_entries (accounts : String → StateM σ (Except String α)) (rules : List Rule)
    (answer : String → Answer α) (world : σ) {entry : Entry α}
    (h : entry ∈ (judgeAnswers accounts rules
      ((symbols rules).map fun s => (answer s).toExcept s) world).1.entries) :
    RestsOn (answer entry.rule.symbol) entry := by
  have hjudge := judgeAnswers_eq accounts rules ((symbols rules).map fun s => (answer s).toExcept s)
  rw [cases_groups] at hjudge
  have hentries : ∃ calls : Ledger α, entry ∈
      (outcomeOn calls.answers (paired rules fun s => (answer s).toExcept s)).entries := by
    rw [hjudge] at h
    exact ⟨_, h⟩
  obtain ⟨calls, hmem⟩ := hentries
  rw [entries_outcomeOn, List.mem_map] at hmem
  obtain ⟨⟨rule, history⟩, hc, rfl⟩ := hmem
  have hhistory : history = (answer rule.symbol).toExcept rule.symbol := (mem_paired.1 hc).2
  subst hhistory
  exact restsOn_entryOn _ rule _

/-- Once all fetches of a batch are done, however they interleaved, each planned request was made once
and answered once, and the batch has the histories in these answers. -/
theorem exists_answers {rules : List Rule} {settings : BatchSettings} {provider : Provider σ τ α}
    {world : σ} {f : Fetches σ τ α}
    (h : Fetches.Interleaves provider (.start (plan α settings rules) world) f)
    (hfinished : f.Finished) :
    ∃ answer : String → Answer α,
      f.requests.Perm (plan α settings rules) ∧
      f.answers.Perm ((plan α settings rules).map fun r => (r, answer r.symbol)) ∧
      f.histories = (symbols rules).map fun s => (answer s).toExcept s := by
  have hkept := Fetches.kept_of_interleaves h
  obtain ⟨answer, htasks⟩ := Fetches.exists_tasks_eq hkept.map_tasks hfinished
  have hrequests := hkept.requests_perm
  rw [htasks, Fetches.filterMap_request?_answered] at hrequests
  have hanswers := hkept.answers_perm
  rw [htasks, Fetches.filterMap_answer?_answered] at hanswers
  refine ⟨answer, hrequests, hanswers, ?_⟩
  rw [Fetches.histories, htasks, Fetches.filterMap_answer?_answered, plan_eq, List.map_map,
    List.map_map]
  rfl

/-- However the fetches of a batch interleave, only planned requests are made, none of them twice. Once
all fetches are done, all of the plan was requested, which is one request for each symbol with
the window of the rules on it, and each request was answered once. The batch then comes to what
it would on a source with just these answers: every rule that takes part is judged, and each
rests on the answer for its own symbol. -/
theorem interleaving_requests_plan_once (rules : List Rule) (settings : BatchSettings)
    (provider : Provider σ τ α) (world : σ) {f : Fetches σ τ α}
    (h : Fetches.Interleaves provider (.start (plan α settings rules) world) f) :
    plan α settings rules =
        (symbols rules).map (fun s => ⟨s, window α settings (rulesOn rules s)⟩) ∧
      (symbols rules).Nodup ∧
      f.requests.Subperm (plan α settings rules) ∧
      (f.Finished →
        f.requests.Perm (plan α settings rules) ∧
        ∃ answer : String → Answer α,
          f.answers.Perm ((plan α settings rules).map fun r => (r, answer r.symbol)) ∧
          ∀ accounts : String → StateM σ (Except String α),
            finish accounts rules f =
              run (fun r => pure (answer r.symbol)) accounts settings rules f.world ∧
            ((finish accounts rules f).1.entries.map Entry.rule).Perm (active rules) ∧
            ∀ entry ∈ (finish accounts rules f).1.entries,
              RestsOn (answer entry.rule.symbol) entry) := by
  have hkept := Fetches.kept_of_interleaves h
  refine ⟨plan_eq settings rules, nodup_symbols rules, hkept.subperm, fun hfinished => ?_⟩
  obtain ⟨answer, hrequests, hanswers, hhistories⟩ := exists_answers h hfinished
  refine ⟨hrequests, answer, hanswers, fun accounts => ⟨?_, ?_, ?_⟩⟩
  · rw [run_eq, fetch_pure, pure_bind, finish, hhistories]
    rfl
  · refine (judgeAnswers_accountsFor accounts ?_ f.world).rules_perm
    rw [hhistories, groups_eq, List.length_map, List.length_map]
  · intro entry hentry
    rw [finish, hhistories] at hentry
    exact restsOn_of_mem_entries accounts rules answer f.world hentry

/-- Two fetches that begin in the other order than planned and overlap; the first to end breaks down,
and only the rules on its symbol fail. -/
theorem interleaving_requests_plan_once_breakdown :
    let bar : Bar Float := ⟨⟨2024, 3, 1, 0, 0, 0, by decide, by decide⟩, 50, 50, 50, 50, 1000⟩
    let provider : Provider Nat Request Float :=
      { receive := fun r made => (r, made + 1)
        proceed := fun r made =>
          (.inr (if r.symbol = "B" then .crashed else .series ⟨r.symbol, [bar]⟩), made) }
    let rule (id symbol : String) : Rule :=
      ⟨id, "alice", symbol, "close > 1", .buy, .fixed, "5", true⟩
    let rules := [rule "1" "A", rule "2" "B", rule "3" "A"]
    ∃ f : Fetches Nat Request Float,
      Fetches.Interleaves provider (.start (plan Float ⟨40⟩ rules) 0) f ∧ f.Finished ∧
      f.requests = [⟨"B", 40⟩, ⟨"A", 40⟩] ∧ f.requests.Perm (plan Float ⟨40⟩ rules) ∧
      ((finish (fun _ => pure (.ok 0)) rules f).1.entries.map fun entry =>
        (entry.rule.id, entry.verdict.isOk)) = [("1", true), ("3", true), ("2", false)] ∧
      ∃ answer : String → Answer Float,
        f.answers.Perm ((plan Float ⟨40⟩ rules).map fun r => (r, answer r.symbol)) ∧
        ∀ entry ∈ (finish (fun _ => pure (.ok 0)) rules f).1.entries,
          RestsOn (answer entry.rule.symbol) entry := by
  intro bar provider rule rules
  let a : Request := ⟨"A", 40⟩
  let b : Request := ⟨"B", 40⟩
  have hplan : plan Float ⟨40⟩ rules = [a, b] := by decide +kernel
  have h₁ : Fetches.Step provider ⟨0, [(a, Progress.waiting)] ++ (b, Progress.waiting) :: [], []⟩
      ⟨1, [(a, Progress.waiting)] ++ (b, Progress.running b) :: [], [] ++ [FetchEvent.asked b]⟩ :=
    .receive rfl
  have h₂ : Fetches.Step provider
      ⟨1, [] ++ (a, Progress.waiting) :: [(b, Progress.running b)], [FetchEvent.asked b]⟩
      ⟨2, [] ++ (a, Progress.running a) :: [(b, Progress.running b)],
        [FetchEvent.asked b] ++ [FetchEvent.asked a]⟩ := .receive rfl
  have h₃ : Fetches.Step provider
      ⟨2, [(a, Progress.running a)] ++ (b, Progress.running b) :: [], [.asked b, .asked a]⟩
      ⟨2, [(a, Progress.running a)] ++ (b, Progress.done .crashed) :: [],
        [FetchEvent.asked b, FetchEvent.asked a] ++ [FetchEvent.answered b .crashed]⟩ := .finish rfl
  have h₄ : Fetches.Step provider
      ⟨2, [] ++ (a, Progress.running a) :: [(b, Progress.done .crashed)],
        [.asked b, .asked a, .answered b .crashed]⟩
      ⟨2, [] ++ (a, Progress.done (.series ⟨"A", [bar]⟩)) :: [(b, Progress.done .crashed)],
        [FetchEvent.asked b, FetchEvent.asked a, FetchEvent.answered b .crashed] ++
          [FetchEvent.answered a (.series ⟨"A", [bar]⟩)]⟩ :=
    .finish rfl
  let f : Fetches Nat Request Float :=
    ⟨2, [(a, .done (.series ⟨"A", [bar]⟩)), (b, .done .crashed)],
      [.asked b, .asked a, .answered b .crashed, .answered a (.series ⟨"A", [bar]⟩)]⟩
  have h : Fetches.Interleaves provider (.start (plan Float ⟨40⟩ rules) 0) f := by
    rw [hplan]
    exact .tail (.tail (.tail (.tail .refl h₁) h₂) h₃) h₄
  have hfinished : f.Finished := by
    intro task htask
    simp only [f, List.mem_cons, List.not_mem_nil, or_false] at htask
    rcases htask with rfl | rfl
    · exact ⟨_, rfl⟩
    · exact ⟨_, rfl⟩
  obtain ⟨-, -, -, hdone⟩ := interleaving_requests_plan_once rules ⟨40⟩ provider 0 h
  obtain ⟨hrequests, answer, hanswers, hjudged⟩ := hdone hfinished
  refine ⟨f, h, hfinished, rfl, hrequests, ?_, answer, hanswers, (hjudged _).2.2⟩
  decide +kernel

end Batch

end TradeRules
