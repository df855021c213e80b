import TradeRules.Proofs.Expr.Agreement
import TradeRules.Proofs.Expr.Inventory

/-!
# What an evaluation asks for

Evaluating an expression is asking for one indicator after the other and putting the answers
together (`Expr.evalAsking`). The indicators that are asked for are those of the expression, in their
order, up to the node at which the evaluation fails, if it does; so contexts that answer these alike
are the same to the expression. Where the vocabulary is kept to, every call has its indicator
(`Expr.indicators_complete`).
-/

namespace TradeRules

variable {α : Type} [Scalar α]

namespace Expr

/-- The value of an expression, where the properties are given and an action is asked for each
indicator at the call that means it. -/
def evalAsking {m : Type → Type} [Monad m] (property : Property → α)
    (ask : Indicator → m (Option α)) : Expr α → m (Except (EvalError α) (Value α))
  | .literal x => return .ok (.number x)
  | .name n =>
    match Property.ofName? n with
    | some p => return .ok (.number (property p))
    | none => return .error (.unknownName n)
  | .call f args =>
    match resolveCall f args with
    | .ok i => do return .ok (.ofOption (← ask i))
    | .error e => return .error (.invalidCall f e)
  | .not e => do
    match ← e.evalAsking property ask with
    | .ok v => return .ok (.truth (!v.holds))
    | .error e => return .error e
  | .binary op l r => do
    match ← l.evalAsking property ask with
    | .error e => return .error e
    | .ok x =>
      match ← r.evalAsking property ask with
      | .error e => return .error e
      | .ok y => return Value.apply op x y

end Expr

/-- The answer of a context to an indicator, which is noted after those asked for before. -/
def Context.noting (c : Context α) (i : Indicator) : StateM (List Indicator) (Option α) := do
  modify (· ++ [i])
  return c.indicator? i

namespace Expr

/-- Asking a context comes to the value of the expression there. What is noted are the indicators of
the expression from the first one on, and all of them where the expression has a value. -/
theorem exists_asked (c : Context α) (e : Expr α) :
    ∃ asked, (∀ noted, (e.evalAsking c.property c.noting).run noted =
        (e.eval c, noted ++ asked)) ∧
      asked <+: e.indicators ∧ ∀ v, e.eval c = .ok v → asked = e.indicators := by
  induction e using evalInduction with
  | literal x =>
    refine ⟨[], fun noted => ?_, List.nil_prefix, fun _ _ => rfl⟩
    rw [List.append_nil]
    rfl
  | name n =>
    refine ⟨[], fun noted => ?_, List.nil_prefix, fun _ _ => rfl⟩
    rw [List.append_nil, evalAsking, eval]
    cases Property.ofName? n <;> rfl
  | call f args =>
    cases hcall : resolveCall f args with
    | ok i =>
      refine ⟨[i], fun noted => ?_, ?_, fun _ _ => ?_⟩
      · simp only [evalAsking, eval, hcall]
        rfl
      · rw [indicators_call hcall]
      · rw [indicators_call hcall]
    | error err =>
      refine ⟨[], fun noted => ?_, List.nil_prefix, fun v hv => ?_⟩
      · simp only [evalAsking, eval, hcall, List.append_nil]
        rfl
      · simp only [eval, hcall, reduceCtorEq] at hv
  | not e ih =>
    obtain ⟨asked, hrun, hprefix, hall⟩ := ih
    refine ⟨asked, fun noted => ?_, ?_, fun v hv => ?_⟩
    · rw [evalAsking, StateT.run_bind, hrun, eval]
      cases e.eval c <;> rfl
    · rwa [indicators_not]
    · obtain ⟨x, hx, -⟩ := eval_not_eq_ok_iff.1 hv
      rw [indicators_not, hall x hx]
  | binary op l r ihl ihr =>
    obtain ⟨left, hrunl, hprefixl, halll⟩ := ihl
    obtain ⟨right, hrunr, hprefixr, hallr⟩ := ihr
    rw [indicators_binary]
    cases hl : l.eval c with
    | error err =>
      refine ⟨left, fun noted => ?_, hprefixl.trans (List.prefix_append _ _), fun v hv => ?_⟩
      · rw [evalAsking, StateT.run_bind, hrunl, eval, hl]
        rfl
      · simp only [eval, hl, reduceCtorEq] at hv
    | ok x =>
      obtain rfl := halll x hl
      refine ⟨l.indicators ++ right, fun noted => ?_, (List.prefix_append_right_inj _).2 hprefixr,
        fun v hv => ?_⟩
      · rw [evalAsking, StateT.run_bind, hrunl, eval, hl, ← List.append_assoc]
        change (StateT.run (_ >>= _) _) = _
        rw [StateT.run_bind, hrunr]
        cases r.eval c <;> rfl
      · obtain ⟨x', y, -, hy, -⟩ := eval_binary_eq_ok_iff.1 hv
        rw [hallr y hy]

/-- Where the vocabulary is kept to, each call has its indicator. -/
theorem forall₂_indicators {e : Expr α} (h : e.validate = .ok ()) :
    List.Forall₂ (fun call i => resolveCall call.1 call.2 = .ok i) e.calls e.indicators := by
  have hcalls : ∀ call ∈ e.calls, ∃ i, resolveCall call.1 call.2 = .ok i :=
    fun call hcall => exists_resolveCall_of_mem_calls h hcall
  rw [indicators]
  generalize e.calls = calls at hcalls ⊢
  induction calls with
  | nil => exact .nil
  | cons call rest ih =>
    obtain ⟨⟨i, hi⟩, hrest⟩ := List.forall_mem_cons.1 hcalls
    simp only [List.filterMap_cons, hi, Except.toOption]
    exact .cons hi (ih hrest)

/-- Contexts whose newest bars hold the same numbers and that give the indicators of an expression
the same values give it the same value, and hold it for the same condition. Within the vocabulary
there is one indicator for each call, in the order of the calls; and in this order, from the first
one on, an evaluation asks for them, coming to the end of them unless it fails before. -/
theorem indicators_complete (e : Expr α) :
    (∀ c c' : Context α, (∀ f, c.current.get f = c'.current.get f) →
        (∀ i ∈ e.indicators, c.indicator? i = c'.indicator? i) →
        e.eval c = e.eval c' ∧ e.fires c = e.fires c') ∧
      (e.validate = .ok () →
        List.Forall₂ (fun call i => resolveCall call.1 call.2 = .ok i) e.calls e.indicators) ∧
      ∀ c : Context α, ∃ asked,
        (e.evalAsking c.property c.noting).run [] = (e.eval c, asked) ∧
          asked <+: e.indicators ∧ ∀ v, e.eval c = .ok v → asked = e.indicators := by
  refine ⟨fun c c' hbar hvalues => ?_, forall₂_indicators, fun c => ?_⟩
  · have hproperty := Context.property_congr hbar
    exact ⟨eval_congr hproperty e hvalues, fires_congr hproperty hvalues⟩
  · obtain ⟨asked, hrun, hprefix, hall⟩ := exists_asked c e
    exact ⟨asked, hrun [], hprefix, hall⟩

/-- A mean over two days and the volume of the last one are all that this condition reads of a
history, so that a day further back makes no difference; they are asked for in this order. -/
theorem indicators_complete_two_days :
    let bar (day : Fin 28) (close : Float) : Bar Float :=
      ⟨⟨2024, 2, day + 1, 0, 0, 0, by revert day; decide, by decide⟩,
        close, close, close, close, 900⟩
    let c : Context Float := ⟨⟨"A", [bar 5 12, bar 6 14]⟩, bar 6 14, rfl, by decide +kernel⟩
    let c' : Context Float := ⟨⟨"A", [bar 4 0.5, bar 5 12, bar 6 14]⟩, bar 6 14, rfl, c.is_finite⟩
    let e : Expr Float := .binary .and
      (.binary (.compare .gt) (.name "close") (.call "sma" [.literal 2]))
      (.not (.binary (.compare .lt) (.call "avgVolume" [.literal 1]) (.literal 500)))
    ((∀ f, c.current.get f = c'.current.get f) ∧
        (∀ i ∈ e.indicators, c.indicator? i = c'.indicator? i) ∧
        e.eval c = e.eval c' ∧ e.fires c = e.fires c') ∧
      (e.validate = .ok () ∧
        List.Forall₂ (fun call i => resolveCall call.1 call.2 = .ok i) e.calls e.indicators) ∧
      e.fires c = .ok true ∧
      (e.evalAsking c.property c.noting).run [] = (e.eval c, [⟨.sma, 2⟩, ⟨.avgVolume, 1⟩]) := by
  intro bar c c' e
  obtain ⟨hsame, hcalls, hasked⟩ := indicators_complete e
  have hindicators : e.indicators = [⟨.sma, 2⟩, ⟨.avgVolume, 1⟩] := by decide +kernel
  have hvalues : ∀ i ∈ e.indicators, c.indicator? i = c'.indicator? i := by
    rw [hindicators, List.forall_mem_cons, List.forall_mem_singleton]
    simp [Context.indicator?, Indicator.value?, Series.closes, Series.volumes, Average.mean?, c, c',
      bar]
  have hvalid : e.validate = .ok () := by decide +kernel
  have hfires : e.fires c = .ok true := by decide +kernel
  obtain ⟨v, hvalue, -⟩ := fires_eq_ok_iff.1 hfires
  obtain ⟨asked, hrun, -, hall⟩ := hasked c
  rw [hall _ hvalue, hindicators] at hrun
  exact ⟨⟨fun _ => rfl, hvalues, hsame c c' (fun _ => rfl) hvalues⟩, ⟨hvalid, hcalls hvalid⟩,
    hfires, hrun⟩

end Expr

end TradeRules
