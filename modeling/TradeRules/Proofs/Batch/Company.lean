import TradeRules.Proofs.Batch.Order
import TradeRules.Proofs.Rule.Window

/-!
# A rule in company

Other rules reach a rule through one thing only: the window that is planned for its symbol, which is
the longest of all rules on it. On a market that has one history for each symbol, a rule is judged
as it would be alone with a window of that length. So it is judged as if it were alone, unless it
calls an indicator which starts at the first bar of the window and comes out otherwise on the longer
one, which does happen.
-/

namespace TradeRules

variable {α : Type}

/-- The newest bars of the history in an answer. -/
def Answer.newest (limit : Nat) : Answer α → Answer α
  | .series s => .series (s.newest limit)
  | .refused e => .refused e
  | .crashed => .crashed

namespace Batch

/-- A source that has one history for each symbol, or always fails alike, and answers a request with
the newest bars. -/
def ofMarket (market : String → Answer α) (r : Request) : Answer α :=
  (market r.symbol).newest r.days

variable [Scalar α]

/-- The window of one rule is what it asks for, and at least the floor. -/
theorem window_singleton (settings : BatchSettings) (r : Rule) :
    window α settings [r] = max (r.lookback α) settings.minFetchDays := rfl

/-- The window of a row of rules is long enough for each of them. -/
theorem lookback_le_window (settings : BatchSettings) {rules : List Rule} {r : Rule}
    (h : r ∈ rules) : r.lookback α ≤ window α settings rules := by
  have hmem : r.lookback α ∈ rules.map (Rule.lookback α) := List.mem_map.2 ⟨r, h, rfl⟩
  exact Nat.le_trans (List.le_max?_getD_of_mem hmem) (Nat.le_max_left _ _)

/-- No window is longer than the greatest one and the floor. -/
theorem window_le (settings : BatchSettings) (rules : List Rule) :
    window α settings rules ≤ max Expr.maxLookback settings.minFetchDays := by
  have hlongest : (rules.map (Rule.lookback α)).max?.getD Expr.defaultLookback ≤
      Expr.maxLookback := by
    cases hmax : (rules.map (Rule.lookback α)).max? with
    | none => decide
    | some days =>
      obtain ⟨r, -, rfl⟩ := List.mem_map.1 (List.max?_mem hmax)
      exact r.lookback_le
  rw [window]
  omega

/-- A batch of one rule that takes part judges that rule. -/
theorem judged_singleton (source : Request → Answer α) (settings : BatchSettings) {r : Rule}
    (h : r.isActive = true) :
    judged source settings [r] = [(r, (source ⟨r.symbol, window α settings [r]⟩).toExcept r.symbol)] := by
  have hactive : active [r] = [r] := by simp [active, h]
  have hsymbols : symbols [r] = [r.symbol] := by
    rw [symbols, hactive]
    rfl
  have hrules : rulesOn [r] r.symbol = [r] := by simp [rulesOn, hactive]
  rw [judged, paired_eq_map, hsymbols]
  simp only [List.flatMap_cons, List.flatMap_nil, List.append_nil, hrules, List.map_cons,
    List.map_nil, historyOn, request]

/-- A rule that is judged alike in two batches has the same entry in both, where the second is a batch
of that rule alone. -/
theorem exists_outcome?_singleton {source source' : Request → Answer α}
    {accounts : String → Option (Except String α)} {settings settings' : BatchSettings}
    {rules : List Rule} (hsome : (outcome? source accounts settings rules).isSome) {r : Rule}
    {history history' : Except SourceError (Series α)}
    (hc : (r, history) ∈ judged source settings rules)
    (halone : judged source' settings' [r] = [(r, history')])
    (hpays : Pays (r, history') → Pays (r, history))
    (hentry : entryOn accounts (r, history') = entryOn accounts (r, history)) :
    ∃ o, outcome? source' accounts settings' [r] = some o ∧
      o.entries = [entryOn accounts (r, history)] := by
  have hanswers : (outcome? source' accounts settings' [r]).isSome := by
    rw [isSome_outcome?_iff, halone]
    intro c hmem hpay
    obtain rfl := List.mem_singleton.1 hmem
    exact isSome_outcome?_iff.1 hsome (r, history) hc (hpays hpay)
  obtain ⟨o, ho⟩ := Option.isSome_iff_exists.1 hanswers
  refine ⟨o, ho, ?_⟩
  rw [eq_outcomeOn_of_outcome? ho, entries_outcomeOn, halone, List.map_singleton, hentry]

/-- On series that are the same to a rule, it comes to the same entry. -/
theorem entryOn_of_sameTo {r : Rule} {a b : Series α} (h : r.SameTo a b)
    (answers : String → Option (Except String α)) :
    entryOn answers (r, .ok a) = entryOn answers (r, .ok b) := by
  simp only [entryOn, verdict, judge, h.evaluate_eq]

/-- On series that are the same to a rule, it comes to the question for cash on both or on neither. -/
theorem pays_of_sameTo {r : Rule} {a b : Series α} (h : r.SameTo a b) :
    Pays (r, .ok a) ↔ Pays (r, .ok b) := by
  simp only [Pays, Fires, Except.ok.injEq, exists_eq_left', h.firesOn_iff]

/-- An indicator of a rule has the same value over the rule's own window and over a longer one that is
planned, unless the history goes beyond the own window and the indicator carries its first values
along. -/
theorem smoothed_of_indicator?_ne {settings : BatchSettings} {rules : List Rule} {r : Rule}
    (hr : r ∈ rules) {s : Series α} {i : Indicator} (hi : i ∈ r.indicators α)
    (h : (s.newest (window α settings [r])).indicator? i ≠
      (s.newest (window α settings rules)).indicator? i) :
    window α settings [r] < window α settings rules ∧ window α settings [r] < s.bars.length ∧
      i.kind.isSmoothed = true := by
  have hown := window_singleton (α := α) settings r
  have hlookback := lookback_le_window (α := α) settings hr
  have hfloor : settings.minFetchDays ≤ window α settings rules := Nat.le_max_right _ _
  have hplanned := window_le (α := α) settings rules
  have hlt : window α settings [r] < window α settings rules := by
    refine Nat.lt_of_le_of_ne (by omega) fun heq => ?_
    rw [heq] at h
    exact h rfl
  refine ⟨hlt, ?_, ?_⟩
  · by_contra hshort
    rw [Series.newest_of_le (by omega), Series.newest_of_le (by omega)] at h
    exact h rfl
  · by_contra hkind
    have hperiod := Rule.min_period_le_lookback hi
    rw [Series.indicator?_newest (Bool.of_not_eq_true hkind) (by omega),
      Series.indicator?_newest (Bool.of_not_eq_true hkind) (by omega)] at h
    exact h rfl

section

variable {market : String → Answer α} {accounts : String → Option (Except String α)}
  {settings : BatchSettings} {rules : List Rule} {r : Rule}

/-- A rule in a batch is judged as it would be alone with the window that is planned for its symbol. -/
theorem exists_outcome?_planned
    (hsome : (outcome? (ofMarket market) accounts settings rules).isSome) (hr : r ∈ active rules) :
    ∃ o, outcome? (ofMarket market) accounts ⟨window α settings (rulesOn rules r.symbol)⟩ [r] =
        some o ∧
      o.entries = [entryOn accounts (r, historyOn (ofMarket market) settings rules r.symbol)] := by
  have hon : r ∈ rulesOn rules r.symbol := by simp [rulesOn, hr]
  have hwindow : window α ⟨window α settings (rulesOn rules r.symbol)⟩ [r] =
      window α settings (rulesOn rules r.symbol) :=
    Nat.max_eq_right (lookback_le_window settings hon)
  have halone := judged_singleton (ofMarket market)
    ⟨window α settings (rulesOn rules r.symbol)⟩ (List.mem_filter.1 hr).2
  rw [hwindow] at halone
  exact exists_outcome?_singleton hsome (mem_paired.2 ⟨hr, rfl⟩) halone id rfl

/-- A rule in a batch is judged as it would be alone, unless the value of a smoothed indicator that the
rule calls differs over the two windows. -/
theorem exists_outcome?_own [CountsWhole α]
    (hsome : (outcome? (ofMarket market) accounts settings rules).isSome) (hr : r ∈ active rules) :
    (∃ o, outcome? (ofMarket market) accounts settings [r] = some o ∧
      o.entries = [entryOn accounts (r, historyOn (ofMarket market) settings rules r.symbol)]) ∨
    ∃ s, market r.symbol = .series s ∧
      window α settings [r] < window α settings (rulesOn rules r.symbol) ∧
      window α settings [r] < s.bars.length ∧
      ∃ i ∈ r.indicators α, i.kind.isSmoothed = true ∧
        (s.newest (window α settings [r])).indicator? i ≠
          (s.newest (window α settings (rulesOn rules r.symbol))).indicator? i := by
  have hon : r ∈ rulesOn rules r.symbol := by simp [rulesOn, hr]
  have halone := judged_singleton (ofMarket market) settings (List.mem_filter.1 hr).2
  have hc : (r, historyOn (ofMarket market) settings rules r.symbol) ∈
      judged (ofMarket market) settings rules := mem_paired.2 ⟨hr, rfl⟩
  have hhistory : historyOn (ofMarket market) settings rules r.symbol =
      ((market r.symbol).newest (window α settings (rulesOn rules r.symbol))).toExcept r.symbol :=
    rfl
  rw [hhistory] at hc ⊢
  cases hmarket : market r.symbol with
  | series s =>
    rw [hmarket] at hc
    simp only [ofMarket, hmarket] at halone
    by_cases hsame : ∀ i ∈ r.indicators α, (s.newest (window α settings [r])).indicator? i =
        (s.newest (window α settings (rulesOn rules r.symbol))).indicator? i
    · have hown : 0 < window α settings [r] :=
        Nat.lt_of_lt_of_le r.lookback_pos (Nat.le_max_left _ _)
      have hplanned : 0 < window α settings (rulesOn rules r.symbol) :=
        Nat.lt_of_lt_of_le r.lookback_pos (lookback_le_window settings hon)
      have hto : r.SameTo (s.newest (window α settings [r]))
          (s.newest (window α settings (rulesOn rules r.symbol))) :=
        ⟨rfl, (Series.latest?_newest hown s).trans (Series.latest?_newest hplanned s).symm, hsame⟩
      exact .inl (exists_outcome?_singleton hsome hc halone (pays_of_sameTo hto).1
        (entryOn_of_sameTo hto accounts))
    · simp only [not_forall] at hsame
      obtain ⟨i, hi, hne⟩ := hsame
      obtain ⟨hlt, hlong, hkind⟩ := smoothed_of_indicator?_ne hon hi hne
      exact .inr ⟨s, rfl, hlt, hlong, i, hi, hkind, hne⟩
  | refused e | crashed =>
    rw [hmarket] at hc
    simp only [ofMarket, hmarket] at halone
    exact .inl (exists_outcome?_singleton hsome hc halone id rfl)

end

/-- On a market with one history for each symbol, every rule that takes part has an entry, which is that
of the batch of this rule alone with the window planned for its symbol. It is also that of the batch
of this rule alone without further ado, unless the planned window is longer than the rule's own, the
history goes beyond the latter, and the rule calls an exponential mean or a relative strength that
comes out differently over the two. -/
theorem entry_alone_or_smoothed [CountsWhole α] (market : String → Answer α)
    (accounts : String → Option (Except String α)) (settings : BatchSettings) (rules : List Rule)
    {o : Outcome α} (h : outcome? (ofMarket market) accounts settings rules = some o) :
    (∀ r ∈ active rules, ∃ entry ∈ o.entries, entry.rule = r) ∧
    ∀ entry ∈ o.entries,
      let planned := window α settings (rulesOn rules entry.rule.symbol)
      let own := window α settings [entry.rule]
      (∃ o', outcome? (ofMarket market) accounts ⟨planned⟩ [entry.rule] = some o' ∧
        o'.entries = [entry]) ∧
      ((∃ o', outcome? (ofMarket market) accounts settings [entry.rule] = some o' ∧
        o'.entries = [entry]) ∨
      ∃ s, market entry.rule.symbol = .series s ∧ own < planned ∧ own < s.bars.length ∧
        ∃ i ∈ entry.rule.indicators α, i.kind.isSmoothed = true ∧
          (s.newest own).indicator? i ≠ (s.newest planned).indicator? i) := by
  have hsome : (outcome? (ofMarket market) accounts settings rules).isSome := by
    rw [h, Option.isSome_some]
  have ho := eq_outcomeOn_of_outcome? h
  constructor
  · intro r hr
    have hmem := (flatMap_rulesOn_perm rules).mem_iff.2 hr
    rw [← map_rule_outcomeOn (ofMarket market) accounts settings, ← ho] at hmem
    exact List.mem_map.1 hmem
  · intro entry hentry
    rw [ho, entries_outcomeOn, List.mem_map] at hentry
    obtain ⟨⟨r, history⟩, hc, rfl⟩ := hentry
    obtain ⟨hr, rfl⟩ : r ∈ active rules ∧
        history = historyOn (ofMarket market) settings rules r.symbol := mem_paired.1 hc
    exact ⟨exists_outcome?_planned hsome hr, exists_outcome?_own hsome hr⟩

/-- A price that fell to one and stayed there for seven hours. -/
def fallenPrice : Series Float :=
  let bar (hour : Fin 24) (close : Float) : Bar Float :=
    ⟨⟨2024, 1, 1, hour, 0, 0, by decide, by revert hour; decide⟩, close, close, close, close, 1000⟩
  ⟨"X", bar 0 1000 :: [1, 2, 3, 4, 5, 6, 7].map fun hour => bar hour 1⟩

/-- Alone, the first rule is given the newest six bars, which are all at one. A second rule on the
symbol has eight bars planned, and the fall still shows in the exponential mean at the end. -/
theorem ema_in_company :
    let source : Request → Answer Float := ofMarket fun _ => .series fallenPrice
    let accounts : String → Option (Except String Float) := fun _ => some (.error "no account")
    let rule (id condition : String) : Rule := ⟨id, "u1", "X", condition, .buy, .fixed, "1", true⟩
    let alone := [rule "1" "EMA(2) > 1.5"]
    let company := [rule "1" "EMA(2) > 1.5", rule "2" "SMA(4) > 0"]
    let endings (o : Outcome Float) := o.entries.map fun entry =>
      (entry.rule.id, entry.verdict.ending)
    (outcome? source accounts ⟨1⟩ alone).map endings = some [("1", .idle)] ∧
      (outcome? source accounts ⟨1⟩ company).map endings = some [("1", .fired), ("2", .fired)] := by
  decide +kernel

/-- On that price the first rule is judged in company as it would be alone with eight bars, where its
own window is six. -/
theorem entry_alone_or_smoothed_ema :
    let source : Request → Answer Float := ofMarket fun _ => .series fallenPrice
    let accounts : String → Option (Except String Float) := fun _ => some (.error "no account")
    let rule (id condition : String) : Rule := ⟨id, "u1", "X", condition, .buy, .fixed, "1", true⟩
    let first := rule "1" "EMA(2) > 1.5"
    let second := rule "2" "SMA(4) > 0"
    ∃ o entry, outcome? source accounts ⟨1⟩ [first, second] = some o ∧ entry ∈ o.entries ∧
      entry.rule = first ∧ window Float ⟨1⟩ [first] = 6 ∧ window Float ⟨1⟩ [first, second] = 8 ∧
      ∃ o', outcome? source accounts ⟨8⟩ [first] = some o' ∧ o'.entries = [entry] := by
  intro source accounts rule first second
  have hsome : (outcome? source accounts ⟨1⟩ [first, second]).isSome := by
    rw [isSome_outcome?_iff]
    intro c _ _
    rfl
  obtain ⟨o, ho⟩ := Option.isSome_iff_exists.1 hsome
  obtain ⟨hentries, hjudged⟩ := entry_alone_or_smoothed (fun _ => .series fallenPrice) accounts ⟨1⟩
    [first, second] ho
  obtain ⟨entry, hentry, hrule⟩ := hentries first (by decide +kernel)
  have hplanned : window Float ⟨1⟩ (rulesOn [first, second] first.symbol) = 8 := by decide +kernel
  have halone := (hjudged entry hentry).1
  rw [hrule, hplanned] at halone
  exact ⟨o, entry, ho, hentry, hrule, by decide +kernel, by decide +kernel, halone⟩

end Batch

end TradeRules
