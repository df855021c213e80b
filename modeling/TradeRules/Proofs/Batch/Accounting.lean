import TradeRules.Batch.Run
import TradeRules.Proofs.Batch.Grouping

/-!
# Every rule is accounted for

Judging a batch is recording one entry after another, and recording keeps the tally at the numbers
of entries that ended in each way. Since a batch asks for one history per group, no rule is
lost where groups and histories are paired. So whatever source and accounts answer, and whatever
they remember, the outcome holds each rule that takes part once and its tally is right
(`Outcome.AccountsFor`).
-/

namespace TradeRules

variable {α : Type}

namespace Tally

/-- How often an ending was tallied. -/
def count (t : Tally) : Ending → Nat
  | .fired => t.fired
  | .idle => t.idle
  | .failed => t.failed

/-- One more ending counts for itself alone. -/
theorem count_add (t : Tally) (e e' : Ending) :
    (t.add e').count e = t.count e + if e' = e then 1 else 0 := by
  cases e <;> cases e' <;> rfl

end Tally

namespace Verdict

/-- What fired is what is to be traded. -/
theorem ending_eq_fired (v : Verdict α) : (v.ending == .fired) = v.isTrade := by
  rcases v with e | d
  · rfl
  · cases d <;> rfl

/-- What failed is what carries an error. -/
theorem ending_eq_failed (v : Verdict α) : (v.ending == .failed) = !v.isOk := by
  rcases v with e | d
  · rfl
  · cases d <;> rfl

/-- What is idle is neither. -/
theorem ending_eq_idle (v : Verdict α) : (v.ending == .idle) = (v.isOk && !v.isTrade) := by
  rcases v with e | d
  · rfl
  · cases d <;> rfl

/-- What is to be traded carries no error. -/
theorem isOk_of_isTrade {v : Verdict α} (h : v.isTrade = true) : v.isOk = true := by
  rcases v with e | d
  · cases h
  · rfl

end Verdict

namespace Outcome

/-- An outcome whose tally is right. -/
def Balanced (o : Outcome α) : Prop :=
  ∀ e : Ending, o.tally.count e = o.entries.countP fun entry => entry.verdict.ending == e

/-- The tally of nothing is right. -/
theorem balanced_empty : (empty : Outcome α).Balanced := by
  intro e
  cases e <;> rfl

/-- Recording keeps the tally right. -/
theorem Balanced.record {o : Outcome α} (h : o.Balanced) (rule : Rule) (verdict : Verdict α) :
    (o.record rule verdict).Balanced := by
  intro e
  simp only [Outcome.record, Tally.count_add, List.countP_append, List.countP_singleton, h e,
    beq_iff_eq]

/-- The outcome with more entries recorded. -/
def recordAll (o : Outcome α) (entries : List (Entry α)) : Outcome α :=
  entries.foldl (fun o entry => o.record entry.rule entry.verdict) o

@[simp] theorem recordAll_nil (o : Outcome α) : o.recordAll [] = o := rfl

@[simp] theorem recordAll_cons (o : Outcome α) (entry : Entry α) (entries : List (Entry α)) :
    o.recordAll (entry :: entries) = (o.record entry.rule entry.verdict).recordAll entries := rfl

/-- What is recorded is put at the end. -/
theorem entries_recordAll (o : Outcome α) (entries : List (Entry α)) :
    (o.recordAll entries).entries = o.entries ++ entries := by
  induction entries generalizing o with
  | nil => exact (List.append_nil _).symm
  | cons entry entries ih =>
    have h := ih (o.record entry.rule entry.verdict)
    rw [Outcome.record, List.append_assoc] at h
    exact h

/-- Recording any number of entries keeps the tally right. -/
theorem Balanced.recordAll {o : Outcome α} (h : o.Balanced) (entries : List (Entry α)) :
    (o.recordAll entries).Balanced := by
  induction entries generalizing o with
  | nil => exact h
  | cons entry entries ih => exact ih (h.record entry.rule entry.verdict)

/-- An outcome accounts for a batch where its entries are the rules that take part, symbol after
symbol, and its tally and its trades are those of its entries. -/
structure AccountsFor (o : Outcome α) (rules : List Rule) : Prop where
  /-- The rules are those on the first symbol, then those on the second, and so on. -/
  rules_eq : o.entries.map Entry.rule = (Batch.symbols rules).flatMap (Batch.rulesOn rules)
  /-- None is lost, and none is doubled. -/
  rules_perm : (o.entries.map Entry.rule).Perm (Batch.active rules)
  /-- The failures are the entries with an error. -/
  failed_eq : o.tally.failed = o.entries.countP fun entry => !entry.verdict.isOk
  /-- The rules that fired are the entries with a trade. -/
  fired_eq : o.tally.fired = o.entries.countP fun entry => entry.verdict.isTrade
  /-- The idle rules are the entries with neither. -/
  idle_eq : o.tally.idle =
    o.entries.countP fun entry => entry.verdict.isOk && !entry.verdict.isTrade
  /-- No entry has both. -/
  disjoint : ∀ entry ∈ o.entries, ¬(entry.verdict.isTrade = true ∧ entry.verdict.isOk = false)
  /-- The tally adds up to the entries. -/
  total_eq : o.tally.total = o.entries.length
  /-- There are as many entries as rules that take part. -/
  length_eq : o.entries.length = (Batch.active rules).length
  /-- There are as many trades as rules that fired. -/
  length_trades : o.trades.length = o.tally.fired
  /-- No trade carries an error. -/
  isOk_of_mem_trades : ∀ entry ∈ o.trades, entry.verdict.isOk = true

/-- Every entry ended in one of the three ways. -/
theorem countP_endings (entries : List (Entry α)) :
    entries.countP (fun entry => entry.verdict.ending == .fired) +
      entries.countP (fun entry => entry.verdict.ending == .idle) +
      entries.countP (fun entry => entry.verdict.ending == .failed) = entries.length := by
  induction entries with
  | nil => rfl
  | cons entry entries ih =>
    simp only [List.countP_cons, List.length_cons]
    cases entry.verdict.ending <;> simp <;> omega

/-- A right tally adds up to the entries. -/
theorem Balanced.total_eq {o : Outcome α} (h : o.Balanced) : o.tally.total = o.entries.length := by
  have hfired : o.tally.fired = _ := h .fired
  have hidle : o.tally.idle = _ := h .idle
  have hfailed : o.tally.failed = _ := h .failed
  rw [Tally.total, hfired, hidle, hfailed]
  exact countP_endings o.entries

/-- A balanced outcome with the rules of all groups accounts for the batch. -/
theorem Balanced.accountsFor {o : Outcome α} {rules : List Rule} (h : o.Balanced)
    (hrules : o.entries.map Entry.rule = (Batch.groups rules).flatMap RuleGroup.rules) :
    o.AccountsFor rules := by
  have hfired : o.tally.fired = o.entries.countP fun entry => entry.verdict.isTrade := by
    have hcount := h .fired
    simp only [Verdict.ending_eq_fired] at hcount
    exact hcount
  have hfailed : o.tally.failed = o.entries.countP fun entry => !entry.verdict.isOk := by
    have hcount := h .failed
    simp only [Verdict.ending_eq_failed] at hcount
    exact hcount
  have hidle : o.tally.idle =
      o.entries.countP fun entry => entry.verdict.isOk && !entry.verdict.isTrade := by
    have hcount := h .idle
    simp only [Verdict.ending_eq_idle] at hcount
    exact hcount
  have hperm : (o.entries.map Entry.rule).Perm (Batch.active rules) := by
    rw [hrules]
    exact Batch.groups_perm rules
  refine ⟨?_, hperm, hfailed, hfired, hidle, ?_, h.total_eq, ?_, ?_, ?_⟩
  · rw [hrules, Batch.groups_eq, List.flatMap_map]
  · rintro entry - ⟨htrade, herror⟩
    rw [Verdict.isOk_of_isTrade htrade] at herror
    cases herror
  · rw [← hperm.length_eq, List.length_map]
  · rw [hfired, List.countP_eq_length_filter]
    rfl
  · intro entry hentry
    exact Verdict.isOk_of_isTrade (List.mem_filter.1 hentry).2

/-- The outcome of recording the rules of all groups accounts for the batch. -/
theorem recordAll_accountsFor {entries : List (Entry α)} {rules : List Rule}
    (h : entries.map Entry.rule = (Batch.groups rules).flatMap RuleGroup.rules) :
    ((empty : Outcome α).recordAll entries).AccountsFor rules := by
  refine (balanced_empty.recordAll entries).accountsFor ?_
  rw [entries_recordAll]
  exact h

end Outcome

/-- What is known of each step of a traversal is known of the whole. -/
theorem map_mapM_of_forall {m : Type → Type} [Monad m] [LawfulMonad m] {β γ δ : Type}
    {f : β → m γ} {g : γ → δ} {k : β → δ} (h : ∀ x, g <$> f x = (fun _ => k x) <$> f x)
    (xs : List β) : List.map g <$> xs.mapM f = (fun _ => xs.map k) <$> xs.mapM f := by
  induction xs with
  | nil => simp
  | cons x xs ih =>
    have hstep : ∀ r : δ → m (List δ), (f x >>= fun y => r (g y)) = f x >>= fun _ => r (k x) := by
      intro r
      have hbind := congrArg (· >>= r) (h x)
      simpa only [bind_map_left] using hbind
    calc List.map g <$> (x :: xs).mapM f
        = f x >>= fun y => (List.map g <$> xs.mapM f) >>= fun zs => pure (g y :: zs) := by
          simp
      _ = f x >>= fun _ => (List.map g <$> xs.mapM f) >>= fun zs => pure (k x :: zs) :=
          hstep fun z => (List.map g <$> xs.mapM f) >>= fun zs => pure (z :: zs)
      _ = (fun _ => (x :: xs).map k) <$> (x :: xs).mapM f := by
          rw [ih]
          simp

/-- A traversal has as many results as steps. -/
theorem length_mapM {σ β γ : Type} (f : β → StateM σ γ) (xs : List β) (world : σ) :
    (xs.mapM f world).1.length = xs.length := by
  have h := map_mapM_of_forall (f := f) (g := fun _ => ()) (k := fun _ => ()) (fun _ => rfl) xs
  have hworld : (xs.mapM f world).1.map (fun _ => ()) = xs.map fun _ => () :=
    congrArg Prod.fst (congrFun h world)
  simpa using congrArg List.length hworld

namespace Batch

variable [Scalar α]

/-- Judges a rule and pairs it with its verdict. -/
def entry {m : Type → Type} [Monad m] (cash : Rule → m (Except (SizingError α) (Option α)))
    (c : Rule × Except SourceError (Series α)) : m (Entry α) :=
  Entry.mk c.1 <$> judge (cash c.1) c.1 c.2

/-- Judging is recording the entries of one rule after another. -/
theorem judgeAll_eq {m : Type → Type} [Monad m] [LawfulMonad m]
    (cash : Rule → m (Except (SizingError α) (Option α)))
    (cases : List (Rule × Except SourceError (Series α))) :
    judgeAll cash cases = Outcome.empty.recordAll <$> cases.mapM (entry cash) := by
  rw [judgeAll]
  generalize Outcome.empty = o
  induction cases generalizing o with
  | nil => simp
  | cons c cases ih =>
    rw [List.foldlM_cons, List.mapM_cons]
    simp only [bind_assoc, pure_bind, ih]
    simp [entry]

/-- The entries of a row of rules are entries of those rules. -/
theorem map_rule_mapM_entry {m : Type → Type} [Monad m] [LawfulMonad m]
    (cash : Rule → m (Except (SizingError α) (Option α)))
    (cases : List (Rule × Except SourceError (Series α))) :
    List.map Entry.rule <$> cases.mapM (entry cash) =
      (fun _ => cases.map Prod.fst) <$> cases.mapM (entry cash) := by
  refine map_mapM_of_forall (fun c => ?_) cases
  simp [entry]

/-- Where there is a history for each group, the rules that are judged are those of all groups. -/
theorem map_fst_cases {β : Type} {groups : List RuleGroup} {histories : List β}
    (h : groups.length ≤ histories.length) :
    (cases groups histories).map Prod.fst = groups.flatMap RuleGroup.rules := by
  have hzip : (groups.zip histories).flatMap (fun p => p.1.rules) =
      groups.flatMap RuleGroup.rules := by
    rw [← List.flatMap_map Prod.fst, List.map_fst_zip h]
  rw [cases, List.map_flatMap, ← hzip]
  simp [Function.comp_def]

/-- However the result of an action is read off, the outcome of judging all groups accounts for the
batch. -/
theorem judgeAll_accountsFor {m : Type → Type} [Monad m] [LawfulMonad m]
    (result : ∀ {β : Type}, m β → β)
    (hresult : ∀ {β γ : Type} (f : β → γ) (x : m β), result (f <$> x) = f (result x))
    (cash : Rule → m (Except (SizingError α) (Option α))) {rules : List Rule}
    {histories : List (Except SourceError (Series α))}
    (h : (groups rules).length ≤ histories.length) :
    (result (judgeAll cash (cases (groups rules) histories))).AccountsFor rules := by
  have hrules := congrArg result (map_rule_mapM_entry cash (cases (groups rules) histories))
  rw [hresult, hresult, map_fst_cases h] at hrules
  rw [judgeAll_eq, hresult]
  exact Outcome.recordAll_accountsFor hrules

/-- Whatever the accounts answer, the outcome accounts for the batch. -/
theorem judgeAnswers_accountsFor {σ : Type} (accounts : String → StateM σ (Except String α))
    {rules : List Rule} {answers : List (Except SourceError (Series α))}
    (h : (groups rules).length ≤ answers.length) (world : σ) :
    (judgeAnswers accounts rules answers world).1.AccountsFor rules :=
  judgeAll_accountsFor (fun {β} (x : StateT (Ledger α) (StateM σ) β) => (x [] world).1.1)
    (fun _ _ => rfl) (Ledger.cashFor accounts) h

/-- Whatever the source and the accounts answer, now and over time, a batch that is run accounts
for its rules, and so does a batch that is judged on histories at hand. -/
theorem outcome_accountsFor (rules : List Rule) {σ : Type} (source : Request → StateM σ (Answer α))
    (accounts : String → StateM σ (Except String α)) (settings : BatchSettings) (world : σ)
    (histories : String → Option (Series α)) (cash : Option α) :
    (run source accounts settings rules world).1.AccountsFor rules ∧
      (evaluate rules histories cash).AccountsFor rules := by
  constructor
  · have hplan : (plan α settings rules).length = (groups rules).length := List.length_map _
    have hanswers := length_mapM (fun r => do return (← source r).toExcept r.symbol)
      (plan α settings rules) world
    rw [hplan] at hanswers
    exact judgeAnswers_accountsFor accounts (Nat.le_of_eq hanswers.symm) _
  · exact judgeAll_accountsFor Id.run (fun _ _ => rfl) _
      (Nat.le_of_eq (List.length_map _).symm)

end Batch

end TradeRules
