import TradeRules.Proofs.Batch.Company
import TradeRules.Proofs.Batch.Interleaving
import TradeRules.Proofs.Expr.Agreement
import TradeRules.Proofs.Indicator.WarmUp

/-!
# Windows are long enough

The window that is planned for a symbol lies between two bars, or the batch's floor if that is more,
and the greatest window, or the floor. An indicator has settled after more bars than it needs to
have a value, so a history which fills the window gives every call of a rule a value, as long as the
call needs no more bars than the greatest window has: the relative strength needs one more than its
period (`Expr.SettledOn`, `Batch.calls_settled_of_supplies`).
-/

namespace TradeRules

/-- An indicator over one bar at least has a value when it has settled, as far as windows go. -/
theorem Indicator.min_barsNeeded_le {i : Indicator} (hperiod : 0 < i.period) {n : Nat}
    (h : n ≤ Number.maxCount) : min i.barsNeeded n ≤ min i.settlingBars n := by
  have hneeded := barsNeeded_le hperiod
  rw [settlingBars]
  omega

variable {α : Type} [Scalar α]

/-- An indicator has a value on a series with as many bars as it needs. -/
theorem Series.isSome_indicator?_iff {s : Series α} {i : Indicator} :
    (s.indicator? i).isSome ↔ 0 < i.period ∧ i.barsNeeded ≤ s.bars.length := by
  have hlength : s.closes.length = s.volumes.length := by
    rw [closes, volumes, List.length_map, List.length_map]
  rw [indicator?, Indicator.isSome_value?_iff hlength, closes, List.length_map]

/-- Every call in an expression means an indicator, which has a value at the end of a series unless
it needs more bars than the greatest window has; and where the series gives a context, that is the
value of the call. -/
def Expr.SettledOn (e : Expr α) (s : Series α) : Prop :=
  ∀ f args, (f, args) ∈ e.calls → ∃ i, resolveCall f args = .ok i ∧
    (i.period ≤ 365 → (i.kind = .rsi → i.period ≤ 364) →
      ∃ x, s.indicator? i = some x ∧
        ∀ c, Context.of s = .ok c → (call f args).eval c = .ok (.number x))

/-- Every call in the expressions of a rule has a value on a series as long as the rule's window. -/
theorem Rule.settledOn [CountsWhole α] {r : Rule} {s : Series α}
    (h : r.lookback α ≤ s.bars.length) {text : String} (htext : text ∈ r.texts) {e : Expr α}
    (hread : readExpr text = .ok e) : e.SettledOn s := by
  intro f args hcall
  obtain ⟨i, hi⟩ := Expr.exists_resolveCall_of_mem_calls (readExpr_eq_ok_iff.1 hread).2 hcall
  refine ⟨i, hi, fun hperiod hrsi => ?_⟩
  have hwindow : i.barsNeeded ≤ Expr.maxLookback := by
    unfold Indicator.barsNeeded
    cases hkind : i.kind with
    | rsi => exact Nat.succ_le_succ (hrsi hkind)
    | sma | ema | avgVolume => exact hperiod
  have hmem := Expr.mem_indicators_of_mem_calls hcall hi
  have hpos := Expr.period_pos hi
  have hneeded : i.barsNeeded ≤ s.bars.length := by
    calc i.barsNeeded = min i.barsNeeded Expr.maxLookback := (Nat.min_eq_left hwindow).symm
      _ ≤ min i.settlingBars Expr.maxLookback := Indicator.min_barsNeeded_le hpos (by decide)
      _ ≤ r.lookback α := settlingBars_le_lookback (mem_indicators.2 ⟨text, htext, e, hread, hmem⟩)
      _ ≤ s.bars.length := h
  obtain ⟨x, hx⟩ := Option.isSome_iff_exists.1 (Series.isSome_indicator?_iff.2 ⟨hpos, hneeded⟩)
  refine ⟨x, hx, fun c hc => ?_⟩
  simp only [Expr.eval, hi, Context.indicator?_of hc, hx]
  rfl

namespace Batch

/-- Every window has two bars at least, and no fewer than the floor. -/
theorem le_window [CountsWhole α] (settings : BatchSettings) (rules : List Rule) :
    max 2 settings.minFetchDays ≤ window α settings rules := by
  have hlongest : 2 ≤ (rules.map (Rule.lookback α)).max?.getD Expr.defaultLookback := by
    cases hmax : (rules.map (Rule.lookback α)).max? with
    | none => decide
    | some days =>
      obtain ⟨r, -, rfl⟩ := List.mem_map.1 (List.max?_mem hmax)
      exact r.two_le_lookback
  rw [window]
  omega

variable {σ : Type}

/-- A source that answers a request, whatever it remembers, with the newest bars of a history which
has as many as are wanted. -/
def Supplies (source : Request → StateM σ (Answer α)) (request : Request) : Prop :=
  ∀ world, ∃ s : Series α, request.days ≤ s.bars.length ∧
    (source request world).1 = .series (s.newest request.days)

/-- Every window that is planned lies between two bars and the greatest window, or the floor where
that is more. Every rule that takes part has an entry; and where the source has as many bars as are
planned for its symbol, the rule is judged on a series on which every call in its expressions has a
value, unless the period of the call is beyond all windows. -/
theorem calls_settled_of_supplies [CountsWhole α] (rules : List Rule) (settings : BatchSettings)
    (source : Request → StateM σ (Answer α)) (accounts : String → StateM σ (Except String α))
    (world : σ) :
    (∀ request ∈ plan α settings rules, max 2 settings.minFetchDays ≤ request.days ∧
      request.days ≤ max 365 settings.minFetchDays) ∧
    ((run source accounts settings rules world).1.entries.map Entry.rule).Perm (active rules) ∧
    ∀ entry ∈ (run source accounts settings rules world).1.entries,
      let request := request α settings rules entry.rule.symbol
      request ∈ plan α settings rules ∧
      (Supplies source request → ∃ (s : Series α) (found : σ),
        (source request found).1 = .series s ∧ s.bars.length = request.days ∧
        RestsOn (.series s) entry ∧
        ∀ text ∈ entry.rule.texts, ∀ e : Expr α, readExpr text = .ok e → e.SettledOn s) := by
  have hperm := (outcome_accountsFor rules source accounts settings world (fun _ => none)
    none).1.rules_perm
  refine ⟨fun request hrequest => ?_, hperm, fun entry hentry => ?_⟩
  · rw [plan_eq] at hrequest
    obtain ⟨s, -, rfl⟩ := List.mem_map.1 hrequest
    exact ⟨le_window settings _, window_le settings _⟩
  · have hactive : entry.rule ∈ active rules := hperm.mem_iff.1 (List.mem_map_of_mem hentry)
    have hsymbol : entry.rule.symbol ∈ symbols rules :=
      List.mem_eraseDups.2 (List.mem_map_of_mem hactive)
    have hon : entry.rule ∈ rulesOn rules entry.rule.symbol := by simp [rulesOn, hactive]
    refine ⟨plan_eq (α := α) settings rules ▸ List.mem_map_of_mem hsymbol, fun hsupplies => ?_⟩
    obtain ⟨worldAt, hfetch⟩ := exists_worlds_fetch source settings rules world
    have hrun : run source accounts settings rules world =
        judgeAnswers accounts rules (fetch source settings rules world).1
          (fetch source settings rules world).2 := rfl
    rw [hrun, hfetch] at hentry
    have hrests := restsOn_of_mem_entries accounts rules
      (fun s => (source (request α settings rules s) (worldAt s)).1) _ hentry
    obtain ⟨s, hlong, hanswer⟩ := hsupplies (worldAt entry.rule.symbol)
    have hlength := (s.length_newest _).trans (Nat.min_eq_left hlong)
    simp only [hanswer] at hrests
    refine ⟨_, worldAt entry.rule.symbol, hanswer, hlength, hrests, fun text htext e hread => ?_⟩
    refine Rule.settledOn ?_ htext hread
    rw [hlength]
    exact lookback_le_window settings hon

/-- Six bars are planned for a relative strength over two and a mean over three, and of eight bars
the newest six are enough for the former. -/
theorem calls_settled_of_supplies_strength :
    let source : Request → StateM Nat (Answer Float) := fun r asked =>
      (.series (fallenPrice.newest r.days), asked + 1)
    let accounts : String → StateM Nat (Except String Float) := fun _ => pure (.ok 1000)
    let rule : Rule := ⟨"1", "alice", "X", "RSI(2) > 50", .buy, .expression, "SMA(3)", true⟩
    request Float ⟨1⟩ [rule] "X" = ⟨"X", 6⟩ ∧ Supplies source ⟨"X", 6⟩ ∧
      ∃ entry ∈ (run source accounts ⟨1⟩ [rule] 0).1.entries, entry.rule = rule ∧
        ∃ (s : Series Float) (e : Expr Float), s.bars.length = 6 ∧ RestsOn (.series s) entry ∧
          readExpr rule.condition = .ok e ∧ e.indicators = [⟨.rsi, 2⟩] ∧ e.SettledOn s := by
  intro source accounts rule
  have hrequest : request Float ⟨1⟩ [rule] "X" = ⟨"X", 6⟩ := by decide +kernel
  have hsupplies : Supplies source ⟨"X", 6⟩ := fun world => ⟨fallenPrice, by decide +kernel, rfl⟩
  obtain ⟨-, hperm, hentries⟩ := calls_settled_of_supplies [rule] ⟨1⟩ source accounts 0
  have hactive : rule ∈ active [rule] := List.mem_singleton_self rule
  obtain ⟨entry, hentry, hrule⟩ := List.mem_map.1 (hperm.mem_iff.2 hactive)
  have hsettled := (hentries entry hentry).2
  rw [hrule, show rule.symbol = "X" from rfl, hrequest] at hsettled
  obtain ⟨s, -, -, hlength, hrests, hcalls⟩ := hsettled hsupplies
  have hread : ((readExpr rule.condition : Except (RuleError Float) (Expr Float)).toOption.map
      Expr.indicators) = some [⟨.rsi, 2⟩] := by decide +kernel
  cases he : (readExpr rule.condition : Except (RuleError Float) (Expr Float)) with
  | error err =>
    rw [he] at hread
    cases hread
  | ok e =>
    rw [he] at hread
    exact ⟨hrequest, hsupplies, entry, hentry, hrule, s, e, hlength, hrests, rfl,
      Option.some.inj hread, hcalls rule.condition rule.condition_mem_texts e he⟩

end Batch

end TradeRules
