import TradeRules.Proofs.Expr.Agreement
import TradeRules.Proofs.Expr.FirstError
import TradeRules.Proofs.Number.Period

/-!
# The closed vocabulary

An expression is accepted exactly if every name among its nodes is that of a property, and every call
names a kind and has one period as its argument. Nodes are in the order in which they are read, each
after its operands, and operators do not offend. So the check, which goes from the left and stops at
the first offence, reports the leftmost name or call that offends (`Expr.validate_closed`).
-/

namespace TradeRules.Expr

open Number

variable {α : Type} [Scalar α]

/-- `s.Offends v`: the expression `s` is itself a name or a call that offends in the way `v`. -/
inductive Offends : Expr α → VocabularyError α → Prop where
  /-- The name is that of no property. -/
  | name {n : String} (unknown : ∀ p : Property, p.name ≠ n) :
    Offends (.name n) (.unknownProperty n)
  /-- The call means no indicator. -/
  | call {f : String} {args : List (Expr α)} {v : VocabularyError α} (h : CallOffence f args v) :
    Offends (.call f args) v

/-- The offence that the check reports, if it does. -/
def rejection? (e : Expr α) : Option (VocabularyError α) :=
  match e.validate with
  | .ok _ => none
  | .error v => some v

/-- The offence of an expression itself: an operator has none. -/
def offence? (e : Expr α) : Option (VocabularyError α) :=
  if e.operands.isEmpty then e.rejection? else none

theorem rejection?_eq_some_iff {e : Expr α} {v : VocabularyError α} :
    e.rejection? = some v ↔ e.validate = .error v := by
  rw [rejection?]
  cases e.validate <;> simp

/-- What is not rejected is accepted. -/
theorem rejection?_eq_none_iff {e : Expr α} : e.rejection? = none ↔ e.validate = .ok () := by
  rw [rejection?]
  cases e.validate <;> simp

/-- A name offends exactly if it is that of no property. -/
theorem rejection?_name_eq_some_iff {n : String} {v : VocabularyError α} :
    (name n : Expr α).rejection? = some v ↔ (name n : Expr α).Offends v := by
  rw [rejection?_eq_some_iff, validate]
  constructor
  · intro h
    split at h
    · cases h
    · rename_i hnone
      cases h
      refine .name fun p hp => ?_
      rw [Property.ofName?_eq_some_iff.2 hp] at hnone
      cases hnone
  · rintro ⟨unknown⟩
    split
    · rename_i p hp
      exact absurd (Property.ofName?_eq_some_iff.1 hp) (unknown p)
    · rfl

/-- A call offends exactly as it means no indicator. -/
theorem rejection?_call_eq_some_iff {f : String} {args : List (Expr α)} {v : VocabularyError α} :
    (call f args).rejection? = some v ↔ (call f args).Offends v := by
  rw [rejection?_eq_some_iff, validate]
  constructor
  · intro h
    split at h
    · cases h
    · rename_i reason hcall
      cases h
      exact .call (resolveCall_eq_error_iff.1 hcall)
  · rintro (- | hoffence)
    rw [hoffence.resolveCall_eq]

/-- An expression has the offence of a name or a call. -/
theorem offence?_eq_some_iff {s : Expr α} {v : VocabularyError α} :
    s.offence? = some v ↔ s.Offends v := by
  cases s with
  | literal x => exact iff_of_false (by rintro ⟨⟩) (by rintro ⟨⟩)
  | name n => exact rejection?_name_eq_some_iff
  | call f args => exact rejection?_call_eq_some_iff
  | not e => exact iff_of_false (by rintro ⟨⟩) (by rintro ⟨⟩)
  | binary op l r => exact iff_of_false (by rintro ⟨⟩) (by rintro ⟨⟩)

/-- An expression that does not offend has no offence. -/
theorem offence?_eq_none_iff {s : Expr α} : s.offence? = none ↔ ∀ v, ¬s.Offends v := by
  simp only [Option.eq_none_iff_forall_ne_some, ne_eq, offence?_eq_some_iff]

/-- An expression is rejected for its first operand that is, or else for itself. -/
theorem rejection?_eq_operands (e : Expr α) :
    e.rejection? = (e.operands.findSome? rejection?).or e.offence? := by
  cases e with
  | literal x | name n | call f args => simp [operands, offence?]
  | not e => cases h : e.validate <;> simp [operands, offence?, rejection?, validate, h]
  | binary op l r =>
    cases hl : l.validate with
    | error v => simp [operands, rejection?, validate, hl]
    | ok u => cases hr : r.validate <;> simp [operands, offence?, rejection?, validate, hl, hr]

/-- The check reports the offence of the first node that offends. -/
theorem validate_eq_error_iff {e : Expr α} {v : VocabularyError α} :
    e.validate = .error v ↔ ∃ before s after, e.nodes = before ++ s :: after ∧ s.Offends v ∧
      ∀ t ∈ before, ∀ w, ¬t.Offends w := by
  rw [← rejection?_eq_some_iff, eq_findSome?_nodes rejection?_eq_operands,
    List.findSome?_eq_some_iff]
  simp only [offence?_eq_some_iff, offence?_eq_none_iff]

/-- An expression is accepted exactly if none of its nodes offends. -/
theorem validate_eq_ok_iff {e : Expr α} :
    e.validate = .ok () ↔ ∀ s ∈ e.nodes, ∀ v, ¬s.Offends v := by
  rw [← rejection?_eq_none_iff, eq_findSome?_nodes rejection?_eq_operands,
    List.findSome?_eq_none_iff]
  simp only [offence?_eq_none_iff]

/-- A name does not offend exactly if it is that of a property. -/
theorem forall_not_offends_name_iff {n : String} :
    (∀ v, ¬(name n : Expr α).Offends v) ↔ ∃ p : Property, p.name = n := by
  constructor
  · intro h
    by_contra hnone
    exact h _ (.name (not_exists.1 hnone))
  · rintro ⟨p, hp⟩ v ⟨unknown⟩
    exact unknown p hp

/-- A call does not offend exactly if it names a kind and has one period as its argument. -/
theorem forall_not_offends_call_iff {f : String} {args : List (Expr Float)} :
    (∀ v, ¬(call f args).Offends v) ↔
      (∃ k : IndicatorKind, IndicatorKind.folded k.name = IndicatorKind.folded f) ∧
        ∃ x, args = [.literal x] ∧ Binary64.IsPeriod x := by
  constructor
  · intro h
    rcases exists_resolveCall_or_offence f args with ⟨k, x, hname, hargs, hpos, hwhole⟩ | ⟨v, hv⟩
    · exact ⟨⟨k, IndicatorKind.ofName?_eq_some_iff.1 hname⟩, x, hargs,
        Binary64.isPeriod_iff.2 ⟨hpos, hwhole⟩⟩
    · exact absurd (.call hv) (h v)
  · rintro ⟨⟨k, hname⟩, x, rfl, hperiod⟩ v (- | hv)
    obtain ⟨hpos, hwhole⟩ := Binary64.isPeriod_iff.1 hperiod
    have hok := resolveCall_literal (IndicatorKind.ofName?_eq_some_iff.2 hname) hpos hwhole
    rw [hv.resolveCall_eq] at hok
    cases hok

/-- No node offends exactly if no name and no call among the nodes does. -/
theorem forall_nodes_not_offends_iff {e : Expr α} :
    (∀ s ∈ e.nodes, ∀ v, ¬s.Offends v) ↔
      (∀ n, name n ∈ e.nodes → ∀ v, ¬(name n : Expr α).Offends v) ∧
        ∀ f args, call f args ∈ e.nodes → ∀ v, ¬(call f args).Offends v := by
  constructor
  · intro h
    exact ⟨fun n hn => h _ hn, fun f args hcall => h _ hcall⟩
  · rintro ⟨hnames, hcalls⟩ s hs v hv
    cases hv with
    | name unknown => exact hnames _ hs _ (.name unknown)
    | call hoffence => exact hcalls _ _ hs _ (.call hoffence)

/-- Exactly those expressions are accepted whose names are those of properties, and whose calls name
kinds in some letter case and have one period each, arguments of calls apart. Otherwise the offence
of the first node that offends is reported. A name that is listed as a function is never unknown
where the indicator is built. -/
theorem validate_closed (e : Expr Float) :
    (e.validate = .ok () ↔
      (∀ n, name n ∈ e.nodes → ∃ p : Property, p.name = n) ∧
        ∀ f args, call f args ∈ e.nodes →
          (∃ k : IndicatorKind, IndicatorKind.folded k.name = IndicatorKind.folded f) ∧
            ∃ x, args = [.literal x] ∧ Binary64.IsPeriod x) ∧
    (∀ v, e.validate = .error v ↔ ∃ before s after, e.nodes = before ++ s :: after ∧
      s.Offends v ∧ ∀ t ∈ before, ∀ w, ¬t.Offends w) ∧
    ∀ f period, (Indicator.ofCall? f period).isSome = IndicatorKind.isFunction f := by
  refine ⟨?_, fun v => validate_eq_error_iff, isSome_ofCall?⟩
  rw [validate_eq_ok_iff, forall_nodes_not_offends_iff]
  simp only [forall_not_offends_name_iff, forall_not_offends_call_iff]

/-- Letter case does not matter for functions, but for properties it does; and the name to the left
is reported, not the call whose period is no number. -/
example :
    let call (f : String) (x : Float) : Expr Float := .call f [.literal x]
    (Expr.binary (.compare .gt) (call "rSi" 14) (.name "close")).validate = .ok () ∧
      (Expr.binary (.compare .gt) (.name "Close") (call "rSi" (0 / 0))).validate =
        .error (.unknownProperty "Close") := by
  constructor
  · decide +kernel
  · rfl

end TradeRules.Expr
