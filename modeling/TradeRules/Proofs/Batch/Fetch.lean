import TradeRules.Proofs.Batch.Accounting

/-!
# The histories of a batch

A batch requests the history of each symbol once (`Batch.plan_eq`), and every rule on the symbol is
judged on the one answer (`Batch.cases_groups`).
-/

namespace TradeRules

/-- A row that is as long as a row without doubles gives each entry of the latter its own value. -/
theorem exists_map_eq {β γ : Type} [DecidableEq β] [Nonempty γ] {xs : List β} (h : xs.Nodup)
    {ys : List γ} (hlength : ys.length = xs.length) : ∃ f : β → γ, xs.map f = ys := by
  induction xs generalizing ys with
  | nil => exact ⟨fun _ => Classical.ofNonempty, (List.eq_nil_of_length_eq_zero hlength).symm⟩
  | cons x xs ih =>
    obtain ⟨hx, hxs⟩ := List.nodup_cons.1 h
    cases ys with
    | nil => cases hlength
    | cons y ys =>
      obtain ⟨f, rfl⟩ := ih hxs (Nat.succ.inj hlength)
      refine ⟨fun z => if z = x then y else f z, ?_⟩
      have hothers : ∀ z ∈ xs, (if z = x then y else f z) = f z := by
        rintro z hz
        rw [if_neg]
        rintro rfl
        exact hx hz
      rw [List.map_cons, List.map_congr_left hothers, if_pos rfl]

/-- A traversal of actions on a world, step by step. -/
theorem mapM_cons_run {σ β γ : Type} (f : β → StateM σ γ) (x : β) (xs : List β) (world : σ) :
    (x :: xs).mapM f world =
      ((f x world).1 :: (xs.mapM f (f x world).2).1, (xs.mapM f (f x world).2).2) := by
  rw [List.mapM_cons]
  rfl

/-- A traversal comes to the results of its steps, each in the world that it finds. -/
theorem exists_worlds_mapM {σ β γ : Type} (f : β → StateM σ γ) (xs : List β) (world : σ) :
    ∃ worlds : List σ, worlds.length = xs.length ∧
      (xs.mapM f world).1 = List.zipWith (fun x found => (f x found).1) xs worlds := by
  induction xs generalizing world with
  | nil => exact ⟨[], rfl, rfl⟩
  | cons x xs ih =>
    obtain ⟨worlds, hlength, hrest⟩ := ih (f x world).2
    refine ⟨world :: worlds, congrArg Nat.succ hlength, ?_⟩
    rw [mapM_cons_run, List.zipWith_cons_cons, hrest]

namespace Batch

variable {α : Type}

/-- The history that comes of a request. -/
def fetchOne {m : Type → Type} [Monad m] (source : Request → m (Answer α)) (r : Request) :
    m (Except SourceError (Series α)) := do
  return (← source r).toExcept r.symbol

variable [Scalar α]

/-- The histories that a batch judges its rules on, in the order of its plan. -/
def fetch {m : Type → Type} [Monad m] (source : Request → m (Answer α)) (settings : BatchSettings)
    (rules : List Rule) : m (List (Except SourceError (Series α))) :=
  (plan α settings rules).mapM (fetchOne source)

/-- Running a batch is fetching its histories and then judging its rules on them. -/
theorem run_eq {m : Type → Type} [Monad m] (source : Request → m (Answer α))
    (accounts : String → m (Except String α)) (settings : BatchSettings) (rules : List Rule) :
    run source accounts settings rules =
      fetch source settings rules >>= judgeAnswers accounts rules := rfl

variable (α) in
/-- The request of a batch for a symbol. -/
def request (settings : BatchSettings) (rules : List Rule) (s : String) : Request :=
  ⟨s, window α settings (rulesOn rules s)⟩

/-- There is one request for each symbol. -/
theorem plan_eq (settings : BatchSettings) (rules : List Rule) :
    plan α settings rules = (symbols rules).map (request α settings rules) := by
  rw [plan, groups_eq, List.map_map]
  rfl

/-- The rules that take part, symbol by symbol, each with what there is for its symbol. -/
def paired {β : Type} (rules : List Rule) (history : String → β) : List (Rule × β) :=
  (symbols rules).flatMap fun s => (rulesOn rules s).map (·, history s)

/-- Where the histories stand in the order of the plan, every rule is paired with the history of its
symbol. -/
theorem cases_groups {β : Type} (rules : List Rule) (history : String → β) :
    cases (groups rules) ((symbols rules).map history) = paired rules history := by
  rw [cases, groups_eq, List.zip_map', List.flatMap_map]
  rfl

/-- What a rule is paired with belongs to its symbol. -/
theorem mem_paired {β : Type} {rules : List Rule} {history : String → β} {c : Rule × β} :
    c ∈ paired rules history ↔ c.1 ∈ active rules ∧ c.2 = history c.1.symbol := by
  obtain ⟨rule, h⟩ := c
  simp only [paired, List.mem_flatMap, List.mem_map, rulesOn, List.mem_filter, beq_iff_eq]
  constructor
  · rintro ⟨s, -, r, ⟨hr, rfl⟩, hpair⟩
    cases hpair
    exact ⟨hr, rfl⟩
  · rintro ⟨hr, rfl⟩
    refine ⟨rule.symbol, ?_, rule, ⟨hr, rfl⟩, rfl⟩
    exact List.mem_eraseDups.2 (List.mem_map.2 ⟨rule, hr, rfl⟩)

/-- Whatever a source remembers, a batch ends up with one history for each symbol. -/
theorem exists_history {σ : Type} (source : Request → StateM σ (Answer α))
    (settings : BatchSettings) (rules : List Rule) (world : σ) :
    ∃ history : String → Except SourceError (Series α),
      (symbols rules).map history = (fetch source settings rules world).1 := by
  have hlength := length_mapM (fetchOne source) (plan α settings rules) world
  have hplan : (plan α settings rules).length = (symbols rules).length := by
    rw [plan_eq, List.length_map]
  have : Nonempty (Except SourceError (Series α)) := ⟨.error (.noData "")⟩
  exact exists_map_eq (nodup_symbols rules) (hlength.trans hplan)

/-- Whatever a source remembers, the histories of a batch are its answers to the requests for the
symbols, each in the world that it finds. -/
theorem exists_worlds_fetch {σ : Type} (source : Request → StateM σ (Answer α)) (settings : BatchSettings)
    (rules : List Rule) (world : σ) :
    ∃ worldAt : String → σ, (fetch source settings rules world).1 =
      (symbols rules).map fun s =>
        (source (request α settings rules s) (worldAt s)).1.toExcept s := by
  obtain ⟨worlds, hlength, hworlds⟩ := exists_worlds_mapM
    (fetchOne source ∘ request α settings rules) (symbols rules) world
  have : Nonempty σ := ⟨world⟩
  obtain ⟨worldAt, rfl⟩ := exists_map_eq (nodup_symbols rules) hlength
  refine ⟨worldAt, ?_⟩
  rw [fetch, plan_eq, List.mapM_map, hworlds, List.zipWith_map_right, List.zipWith_self]
  rfl

variable {m : Type → Type} [Monad m] [LawfulMonad m]

/-- A source whose answers depend on the requests alone. -/
theorem fetch_pure (answer : Request → Answer α) (settings : BatchSettings) (rules : List Rule) :
    fetch (m := m) (fun r => pure (answer r)) settings rules =
      pure ((symbols rules).map fun s => (answer (request α settings rules s)).toExcept s) := by
  have hone : fetchOne (m := m) (fun r => pure (answer r)) =
      fun r => pure ((answer r).toExcept r.symbol) := by
    funext r
    rw [fetchOne, pure_bind]
  rw [fetch, hone, List.mapM_pure, plan_eq, List.map_map]
  rfl

end Batch

end TradeRules
