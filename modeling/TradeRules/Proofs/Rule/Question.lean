import TradeRules.Proofs.Rule.Firing

/-!
# The question for cash

A rule that fires asks for cash, once and before its size is looked at; any other rule asks for
nothing and comes to what its condition alone decides (`Rule.asks_once_if_fires`). So two rules with
one condition, whatever else they differ in, come to the same where they do not fire, and to the
same refusal where they do and cash is refused. An amount that is granted matters to a percentage
of it alone.
-/

namespace TradeRules.Rule

variable {α : Type} [Scalar α]

/-- A question that is counted whenever it is asked. -/
def counted {σ β : Type} (question : StateM σ β) : StateM (Nat × σ) β := fun (asked, world) =>
  let (answer, world) := question world
  (answer, (asked + 1, world))

/-- Whether a rule fires is a matter of its condition alone. -/
theorem firing_of_condition_eq {r r' : Rule} (h : r'.condition = r.condition) (s : Series α) :
    r'.firing s = r.firing s := by
  rw [firing, firing, h]

/-- Rules with one condition fire on the same series. -/
theorem firesOn_iff_of_condition_eq {r r' : Rule} (h : r'.condition = r.condition) (s : Series α) :
    r'.FiresOn s ↔ r.FiresOn s := by
  rw [FiresOn, FiresOn, h]

/-- A rule that fires is counted once, and its trade is made on the answer. -/
theorem evaluate_counted_of_firesOn {r : Rule} {s : Series α} (h : r.FiresOn s) {σ : Type}
    (cash : StateM σ (Except (SizingError α) (Option α))) (asked : Nat) (world : σ) :
    r.evaluate s (counted cash) (asked, world) =
      ((r.evaluate s cash world).1, asked + 1, (r.evaluate s cash world).2) := by
  rw [evaluate_of_firesOn h, evaluate_of_firesOn h]
  rfl

/-- A rule that does not fire is not counted and leaves everything as it is. -/
theorem evaluate_counted_of_not_firesOn {r : Rule} {s : Series α} (h : ¬r.FiresOn s) {σ : Type}
    (cash : StateM σ (Except (SizingError α) (Option α))) (asked : Nat) (world : σ) :
    r.evaluate s (counted cash) (asked, world) =
      ((r.evaluate s cash world).1, asked, (r.evaluate s cash world).2) := by
  rw [evaluate_of_not_firesOn h (counted cash) (.ok none),
    evaluate_of_not_firesOn h cash (.ok none)]
  rfl

/-- What a rule that does not fire comes to is settled by its condition. -/
theorem exists_settled_of_not_firesOn {r : Rule} {s : Series α} (h : ¬r.FiresOn s) :
    ∃ settled : Except (RuleError α) (Decision α), ∀ r' : Rule, r'.condition = r.condition →
      ∀ {m : Type → Type} [Monad m] (cash : m (Except (SizingError α) (Option α))),
        r'.evaluate s cash = pure settled := by
  refine ⟨Id.run (r.evaluate s (pure (.ok none))), fun r' hsame m _ cash => ?_⟩
  have hquiet : ¬r'.FiresOn s := fun hfires => h ((firesOn_iff_of_condition_eq hsame s).1 hfires)
  rw [evaluate_of_not_firesOn hquiet cash (.ok none)]
  have hfiring := firing_of_condition_eq hsame s
  unfold evaluate
  rw [hfiring]
  split
  · rfl
  · rfl
  · rename_i c hfired
    exact absurd (firesOn_iff.2 ⟨c, hfired⟩) h

/-- A rule that fires comes to its trade on the answer. -/
theorem exists_evaluate_eq_trade {r : Rule} {s : Series α} (h : r.FiresOn s) :
    ∃ c : Context α, ∀ {σ : Type} (cash : StateM σ (Except (SizingError α) (Option α))) (world : σ),
      r.evaluate s cash world = (r.trade c (cash world).1, (cash world).2) := by
  obtain ⟨c, hfiring⟩ := firesOn_iff.1 h
  refine ⟨c, fun cash world => ?_⟩
  simp only [evaluate, hfiring]
  rfl

/-- Cash is asked for once if a rule fires, and otherwise not at all. A rule that does not fire
comes to what its condition decides, whatever else it says and however cash would be answered for.
Where it fires, a refusal is its error, whatever its size says, and an amount that is granted makes
no difference unless it is sized by percentage. -/
theorem asks_once_if_fires (r : Rule) (s : Series α) :
    (∀ {σ : Type} (cash : StateM σ (Except (SizingError α) (Option α))) (asked : Nat) (world : σ),
      r.evaluate s (counted cash) (asked, world) =
        ((r.evaluate s cash world).1, asked + (if r.FiresOn s then 1 else 0),
          (r.evaluate s cash world).2)) ∧
    (¬r.FiresOn s → ∃ settled : Except (RuleError α) (Decision α),
      ∀ r' : Rule, r'.condition = r.condition →
        ∀ {m : Type → Type} [Monad m] (cash : m (Except (SizingError α) (Option α))),
          r'.evaluate s cash = pure settled) ∧
    (r.FiresOn s → ∀ r' : Rule, r'.condition = r.condition →
      ∀ {σ : Type} (cash : StateM σ (Except (SizingError α) (Option α))) (world : σ),
        (∀ e, (cash world).1 = .error e → (r'.evaluate s cash world).1 = .error (.sizing e)) ∧
        (r'.sizing ≠ .percentage →
          ∀ (cash' : StateM σ (Except (SizingError α) (Option α))) (world' : σ)
            (held held' : Option α), (cash world).1 = .ok held → (cash' world').1 = .ok held' →
              (r'.evaluate s cash world).1 = (r'.evaluate s cash' world').1)) := by
  refine ⟨fun cash asked world => ?_, exists_settled_of_not_firesOn, ?_⟩
  · by_cases h : r.FiresOn s
    · rw [if_pos h, evaluate_counted_of_firesOn h]
    · rw [if_neg h, evaluate_counted_of_not_firesOn h, Nat.add_zero]
  · intro h r' hsame σ cash world
    obtain ⟨c, htrade⟩ := exists_evaluate_eq_trade ((firesOn_iff_of_condition_eq hsame s).2 h)
    constructor
    · intro e herror
      rw [htrade, herror]
      rfl
    · intro hsizing cash' world' held held' hheld hheld'
      rw [htrade, htrade, hheld, hheld']
      exact trade_of_ne hsizing c held held'

/-- An account is closed. A rule that fires asks it once and fails with the refusal, although its
own size is no number; one that does not fire asks nothing, and holds with this size as with
another. -/
theorem asks_once_if_fires_refusal :
    let bar : Bar Float := ⟨⟨2024, 3, 1, 0, 0, 0, by decide, by decide⟩, 50, 50, 50, 50, 1000⟩
    let s : Series Float := ⟨"A", [bar]⟩
    let rule (condition : String) (sizing : Sizing) (size : String) : Rule :=
      ⟨"1", "bob", "A", condition, .buy, sizing, size, true⟩
    let cash : StateM Unit (Except (SizingError Float) (Option Float)) :=
      pure (.error (.cashUnavailable "closed"))
    (rule "close > 1" .fixed "ten").FiresOn s ∧ ¬(rule "close > 100" .fixed "ten").FiresOn s ∧
      (rule "close > 1" .fixed "ten").evaluate s (counted cash) (0, ()) =
        (.error (.sizing (.cashUnavailable "closed")), 1, ()) ∧
      ((rule "close > 100" .fixed "ten").evaluate s (counted cash) (0, ())).2.1 = 0 ∧
      ((rule "close > 100" .fixed "ten").evaluate s cash ()).1 =
        ((rule "close > 100" .percentage "50").evaluate s cash ()).1 := by
  intro bar s rule cash
  have hfires : (rule "close > 1" .fixed "ten").FiresOn s := by decide +kernel
  have hquiet : ¬(rule "close > 100" .fixed "ten").FiresOn s := by decide +kernel
  obtain ⟨hcount, -, hasked⟩ := asks_once_if_fires (rule "close > 1" .fixed "ten") s
  obtain ⟨hcount', hsettled, -⟩ := asks_once_if_fires (rule "close > 100" .fixed "ten") s
  obtain ⟨hrefused, -⟩ := hasked hfires _ rfl cash ()
  obtain ⟨settled, hsame⟩ := hsettled hquiet
  refine ⟨hfires, hquiet, ?_, ?_, ?_⟩
  · rw [hcount cash 0 (), if_pos hfires, hrefused _ rfl]
  · rw [hcount' cash 0 (), if_neg hquiet]
  · rw [hsame _ rfl cash, hsame (rule "close > 100" .percentage "50") rfl cash]

end TradeRules.Rule
