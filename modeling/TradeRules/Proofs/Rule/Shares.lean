import TradeRules.Proofs.Number.Floor
import TradeRules.Proofs.Number.ReadBack
import TradeRules.Proofs.Rule.Firing

/-!
# How many shares a rule trades

A rule that does not fire trades nothing. A rule that fires trades the floor of the size that was
computed for it, which is at least one share, as long as the size is finite and that many shares can
be counted (`shares_of_evaluate`). A number of shares and an expression always give a finite size.
A percentage need not, since neither the cash nor its product with the percentage is asked to be
finite: the rule then trades no share at all, or the greatest count of them.
-/

namespace TradeRules

open Number Number.Binary64

variable {α : Type} [Scalar α]

/-- The positive size that a text spells is finite. -/
theorem isFinite_of_positiveSize? {text : String} {x : α} (h : positiveSize? text = some x) :
    Scalar.isFinite x = true := by
  unfold positiveSize? at h
  split at h
  · rename_i negative mantissa exponent _
    dsimp only at h
    split at h
    · rename_i hpositive
      cases h
      exact (Bool.and_eq_true_iff.1 hpositive).1
    · cases h
  · cases h

/-- The size that an expression gives is finite. -/
theorem isFinite_of_sizeOfValue {v : Value α} {x : α} (h : sizeOfValue v = .ok x) :
    Scalar.isFinite x = true := by
  unfold sizeOfValue at h
  split at h
  · split at h
    · rename_i hfinite
      split at h
      · cases h
        exact hfinite
      · cases h
    · cases h
  · cases h

/-- Only a percentage can give a size that is not finite. -/
theorem isFinite_of_computeSize {c : Context α} {sizing : Sizing} {text : String} {cash : Option α}
    {x : α} (hsizing : sizing ≠ .percentage) (h : computeSize c sizing text cash = .ok x) :
    Scalar.isFinite x = true := by
  unfold computeSize at h
  cases sizing with
  | percentage => exact absurd rfl hsizing
  | fixed =>
    dsimp only at h
    split at h
    · cases h
    · rename_i hsize
      cases h
      exact isFinite_of_positiveSize? hsize
  | expression =>
    dsimp only at h
    split at h
    · cases h
    · split at h
      · cases h
      · rename_i v _
        cases hv : sizeOfValue v with
        | error e =>
          rw [hv] at h
          cases h
        | ok y =>
          rw [hv] at h
          cases h
          exact isFinite_of_sizeOfValue hv

namespace Rule

/-- A trade is for the computed size, cut down to whole shares, and that is above zero as far as the
comparison can tell. -/
theorem eq_trade_of_trade {r : Rule} {c : Context α}
    {answer : Except (SizingError α) (Option α)} {d : Decision α} (h : r.trade c answer = .ok d) :
    ∃ cash size, answer = .ok cash ∧ computeSize c r.sizing r.size cash = .ok size ∧
      Scalar.atMost (Scalar.floor size) Scalar.zero = false ∧
      d = .trade (Scalar.toCount (Scalar.floor size)) c.price := by
  unfold trade at h
  split at h
  · cases h
  · rename_i cash
    split at h
    · cases h
    · rename_i size hsize
      dsimp only at h
      split at h
      · cases h
      · rename_i hpositive
        cases h
        exact ⟨cash, size, rfl, hsize, Bool.of_not_eq_true hpositive, rfl⟩

/-- A decision is to hold, or it is the trade of a rule that fires. -/
theorem hold_or_trade_of_evaluate {r : Rule} {s : Series α}
    {answer : Except (SizingError α) (Option α)} {d : Decision α}
    (h : Id.run (r.evaluate s (pure answer)) = .ok d) :
    ∃ c, Context.of s = .ok c ∧ (d = .hold c.price ∨ r.trade c answer = .ok d) := by
  cases hfiring : r.firing s with
  | error e =>
    simp only [evaluate, hfiring] at h
    cases h
  | ok p =>
    obtain ⟨c, fires⟩ := p
    obtain ⟨e, _, _, hcontext, _⟩ := firing_eq_ok_iff.1 hfiring
    refine ⟨c, hcontext, ?_⟩
    cases fires with
    | false =>
      simp only [evaluate, hfiring] at h
      cases h
      exact .inl rfl
    | true =>
      simp only [evaluate, hfiring] at h
      exact .inr h

/-- A rule that does not fire trades no share. A rule that fires trades what its size comes to: at
least one share, and the floor of the size up to the greatest count, where the size is finite;
otherwise the size is a percentage, and the rule trades the greatest count of shares, or none at all
where the size is no number. -/
theorem shares_of_evaluate {r : Rule} {s : Series Float}
    {answer : Except (SizingError Float) (Option Float)} {d : Decision Float}
    (h : Id.run (r.evaluate s (pure answer)) = .ok d) :
    (d.isTrade = false → d.shares = 0) ∧
      (d.isTrade = true → ∃ c cash size, Context.of s = .ok c ∧ answer = .ok cash ∧
        computeSize c r.sizing r.size cash = .ok size ∧
        (Scalar.isFinite size = true →
          1 ≤ d.shares ∧ (d.shares : ℤ) = min ⌊toRat size⌋ maxCount) ∧
        (Scalar.isFinite size = false → r.sizing = .percentage ∧
          d.shares = if infinityWord < wordOf size then 0 else maxCount)) := by
  obtain ⟨c, hcontext, rfl | htrade⟩ := hold_or_trade_of_evaluate h
  · exact ⟨fun _ => rfl, fun htrade => absurd htrade Bool.false_ne_true⟩
  obtain ⟨cash, size, hanswer, hsize, hpositive, rfl⟩ := eq_trade_of_trade htrade
  refine ⟨fun hhold => absurd hhold.symm Bool.false_ne_true, fun _ => ?_⟩
  refine ⟨c, cash, size, hcontext, hanswer, hsize, fun hfinite => ?_, fun hinfinite => ?_⟩
  · exact toCount_floor ((isFinite_iff size).1 hfinite) hpositive
  · have hnot : ¬Scalar.isFinite size = true := by rw [hinfinite]; exact Bool.false_ne_true
    have hpercentage : r.sizing = .percentage := by
      by_contra hsizing
      exact hnot (isFinite_of_computeSize hsizing hsize)
    have hword : ¬wordOf size < infinityWord := fun hword => hnot ((isFinite_iff size).2 hword)
    exact ⟨hpercentage, toCount_floor_of_not_finite hword hpositive⟩

/-- A tenth of 1005 buys 50 shares at 2, and a quarter of a share is left out. -/
theorem shares_of_evaluate_tenth :
    let rule : Rule := ⟨"1", "alice", "X", "close < 3", .buy, .percentage, "10", true⟩
    let bar : Bar Float := ⟨⟨2024, 5, 1, 0, 0, 0, by decide, by decide⟩, 2, 2, 2, 2, 700⟩
    let s : Series Float := ⟨"X", [bar]⟩
    ∃ d, Id.run (rule.evaluate s (pure (.ok (some 1005)))) = .ok d ∧ d.isTrade = true ∧
      d.shares = 50 ∧ ∃ c size, Context.of s = .ok c ∧
        computeSize c .percentage "10" (some 1005) = .ok size ∧ Scalar.isFinite size = true ∧
        (d.shares : ℤ) = min ⌊toRat size⌋ maxCount := by
  intro rule bar s
  have hrun : (Id.run (rule.evaluate s (pure (.ok (some 1005))))).toOption.map
      (fun d => (d.isTrade, d.shares)) = some (true, 50) := by decide +kernel
  have hfinite : ((Context.of s).toOption.bind fun c =>
      (computeSize c .percentage "10" (some 1005)).toOption.map Scalar.isFinite) = some true := by
    decide +kernel
  cases hd : Id.run (rule.evaluate s (pure (.ok (some 1005)))) with
  | error e =>
    rw [hd] at hrun
    cases hrun
  | ok d =>
    rw [hd] at hrun
    obtain ⟨htrade, hshares⟩ := Prod.mk.inj (Option.some.inj hrun)
    obtain ⟨c, cash, size, hcontext, hcash, hsize, hcount, -⟩ := (shares_of_evaluate hd).2 htrade
    cases hcash
    have hsizeFinite : Scalar.isFinite size = true := by
      have htenth : computeSize c .percentage "10" (some 1005) = .ok size := hsize
      simpa only [hcontext, htenth, Except.toOption, Option.bind_some, Option.map_some,
        Option.some.injEq] using hfinite
    exact ⟨d, rfl, htrade, hshares, c, size, hcontext, hsize, hsizeFinite, (hcount hsizeFinite).2⟩

/-- Sizes that are no number, infinite, or above the greatest count. Half of an undefined amount is
traded as no share at all; half of an amount whose product with the percentage overflows, and a
fixed size of `1e20`, as the greatest count. -/
theorem shares_of_uncountable_sizes :
    let bar : Bar Float := ⟨⟨2024, 6, 3, 0, 0, 0, by decide, by decide⟩, 50, 50, 50, 50, 1000⟩
    let s : Series Float := ⟨"X", [bar]⟩
    let half : Rule := ⟨"1", "alice", "X", "close > 1", .buy, .percentage, "50", true⟩
    let fixed : Rule := ⟨"2", "alice", "X", "close > 1", .buy, .fixed, "1e20", true⟩
    let outcome (r : Rule) (cash : Float) :=
      (Id.run (r.evaluate s (pure (.ok (some cash))))).toOption.map fun d => (d.isTrade, d.shares)
    outcome half (0 / 0) = some (true, 0) ∧ outcome half 1e308 = some (true, maxCount) ∧
      outcome fixed 0 = some (true, maxCount) := by
  decide +kernel

end Rule

end TradeRules
