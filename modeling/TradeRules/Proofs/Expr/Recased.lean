import Mathlib
import TradeRules.Proofs.Expr.Evaluation

/-!
# The letter case of function names

Two expressions are the same but for the case of ASCII letters in the names of functions
(`Expr.Recased`). Names are looked up in a list and by their lower case, and both ways find the same
for them. So wherever they are taken, they come to the same: to the same value, or to errors that
are themselves the same but for the names that they quote (`Expr.letter_case_immaterial`).
-/

namespace TradeRules

/-- Two characters are the same letter, in whichever case. -/
def SameLetter (c d : Char) : Prop := d = c ∨ d = c.toLower ∨ d = c.toUpper

/-- Two names are the same but for the case of their ASCII letters. -/
def SameName (f g : String) : Prop := List.Forall₂ SameLetter f.toList g.toList

/-- Only the letters of ASCII have a case. -/
theorem toLower_and_toUpper_of_le {c : Char} (h : 0x80 ≤ c.toNat) :
    c.toLower = c ∧ c.toUpper = c := by
  have hcode : 0x80 ≤ c.val.toNat := h
  have hcapital : 'Z'.val.toNat = 0x5A := rfl
  have hsmall : 'z'.val.toNat = 0x7A := rfl
  constructor
  · refine dif_neg fun ⟨_, hle⟩ => ?_
    rw [UInt32.le_iff_toNat_le] at hle
    omega
  · refine dif_neg fun ⟨_, hle⟩ => ?_
    rw [UInt32.le_iff_toNat_le] at hle
    omega

/-- The same letters have one lower case. -/
theorem SameLetter.toLower_eq {c d : Char} (h : SameLetter c d) : c.toLower = d.toLower := by
  have hascii : ∀ n < 0x80, (Char.ofNat n).toLower.toLower = (Char.ofNat n).toLower ∧
      (Char.ofNat n).toUpper.toLower = (Char.ofNat n).toLower := by
    decide +kernel
  rcases Nat.lt_or_ge c.toNat 0x80 with hlt | hge
  · have hcase := hascii c.toNat hlt
    rw [Char.ofNat_toNat] at hcase
    rcases h with rfl | rfl | rfl
    · rfl
    · exact hcase.1.symm
    · exact hcase.2.symm
  · obtain ⟨hlower, hupper⟩ := toLower_and_toUpper_of_le hge
    rcases h with rfl | rfl | rfl
    · rfl
    · rw [hlower, hlower]
    · rw [hupper]

/-- The same names have one lower case. -/
theorem SameName.folded_eq {f g : String} (h : SameName f g) :
    IndicatorKind.folded f = IndicatorKind.folded g := by
  have hletters : List.Forall₂ (fun c d : Char => c.toLower = d.toLower) f.toList g.toList :=
    h.imp fun _ _ hletter => hletter.toLower_eq
  rw [IndicatorKind.folded, IndicatorKind.folded, ← List.forall₂_eq_eq_eq,
    List.forall₂_map_left_iff, List.forall₂_map_right_iff]
  exact hletters

/-- In the list of functions, either both names stand or neither. -/
theorem SameName.isFunction_eq {f g : String} (h : SameName f g) :
    IndicatorKind.isFunction f = IndicatorKind.isFunction g := by
  rw [IndicatorKind.isFunction, IndicatorKind.isFunction, h.folded_eq]

variable {α : Type}

namespace Expr

mutual

/-- `a.Recased b`: the expressions are the same but for the case of ASCII letters in the names of
functions. -/
inductive Recased : Expr α → Expr α → Prop where
  | literal (x : α) : Recased (.literal x) (.literal x)
  | name (n : String) : Recased (.name n) (.name n)
  | call {f g : String} {as bs : List (Expr α)} (function : SameName f g)
    (arguments : RecasedIn as bs) : Recased (.call f as) (.call g bs)
  | not {a b : Expr α} (operand : Recased a b) : Recased (.not a) (.not b)
  | binary (op : BinaryOp) {a b c d : Expr α} (left : Recased a b) (right : Recased c d) :
    Recased (.binary op a c) (.binary op b d)

/-- Two rows of expressions are the same in this way, one by one. -/
inductive RecasedIn : List (Expr α) → List (Expr α) → Prop where
  | nil : RecasedIn [] []
  | cons {a b : Expr α} {as bs : List (Expr α)} (head : Recased a b) (tail : RecasedIn as bs) :
    RecasedIn (a :: as) (b :: bs)

end

end Expr

/-- Two offences against the vocabulary are the same but for the case of ASCII letters in the name
of the function that they quote. -/
inductive VocabularyError.Recased : VocabularyError α → VocabularyError α → Prop where
  | unknownFunction {f g : String} (function : SameName f g) :
    Recased (.unknownFunction f) (.unknownFunction g)
  | wrongArity {f g : String} (function : SameName f g) (found : Nat) :
    Recased (.wrongArity f found) (.wrongArity g found)
  | nonLiteralArgument {f g : String} (function : SameName f g) :
    Recased (.nonLiteralArgument f) (.nonLiteralArgument g)
  | nonIntegerPeriod {f g : String} (function : SameName f g) (value : α) :
    Recased (.nonIntegerPeriod f value) (.nonIntegerPeriod g value)
  | nonPositivePeriod {f g : String} (function : SameName f g) (value : α) :
    Recased (.nonPositivePeriod f value) (.nonPositivePeriod g value)
  | unknownProperty (n : String) : Recased (.unknownProperty n) (.unknownProperty n)

/-- Two errors of an evaluation are the same but for the case of ASCII letters in the name of the
function that they quote. -/
inductive EvalError.Recased : EvalError α → EvalError α → Prop where
  | same (e : EvalError α) : Recased e e
  | invalidCall {f g : String} {v w : VocabularyError α} (function : SameName f g)
    (reason : v.Recased w) : Recased (.invalidCall f v) (.invalidCall g w)

/-- Two results are alike: they are the same value, or errors that correspond. -/
inductive Alike {ε β : Type} (R : ε → ε → Prop) : Except ε β → Except ε β → Prop where
  | value (x : β) : Alike R (.ok x) (.ok x)
  | error {e e' : ε} (h : R e e') : Alike R (.error e) (.error e')

namespace Alike

variable {ε β : Type} {R : ε → ε → Prop} {x y : Except ε β}

/-- Of two results that are alike, both are a certain value or neither is. -/
theorem eq_ok_iff (h : Alike R x y) {b : β} : x = .ok b ↔ y = .ok b := by
  cases h with
  | value => exact Iff.rfl
  | error => exact iff_of_false (fun h => by cases h) (fun h => by cases h)

/-- Results that are alike are both a value or both an error. -/
theorem ok_or_error (h : Alike R x y) :
    (∃ b, x = .ok b ∧ y = .ok b) ∨ ∃ e e', x = .error e ∧ y = .error e' ∧ R e e' := by
  cases h with
  | value b => exact .inl ⟨b, rfl, rfl⟩
  | error h => exact .inr ⟨_, _, rfl, rfl, h⟩

/-- A result is alike to itself, where every error corresponds to itself. -/
theorem refl (hR : ∀ e, R e e) (x : Except ε β) : Alike R x x := by
  cases x with
  | error e => exact .error (hR e)
  | ok b => exact .value b

end Alike

namespace Expr

/-- Rows of expressions that are the same in this way are of one length. -/
theorem RecasedIn.length_eq : ∀ {as bs : List (Expr α)}, RecasedIn as bs → as.length = bs.length
  | _, _, .nil => rfl
  | _, _, .cons _ tail => congrArg Nat.succ tail.length_eq

mutual

/-- Such expressions call the same functions on such arguments. -/
theorem Recased.calls {a b : Expr α} : a.Recased b →
    List.Forall₂ (fun p q => SameName p.1 q.1 ∧ RecasedIn p.2 q.2) a.calls b.calls
  | .literal _ | .name _ => .nil
  | .call function arguments => .cons ⟨function, arguments⟩ arguments.calls
  | .not operand => operand.calls
  | .binary _ left right => List.rel_append left.calls right.calls

/-- Such rows of expressions call the same functions on such arguments. -/
theorem RecasedIn.calls {as bs : List (Expr α)} : RecasedIn as bs →
    List.Forall₂ (fun p q => SameName p.1 q.1 ∧ RecasedIn p.2 q.2) (callsIn as) (callsIn bs)
  | .nil => .nil
  | .cons head tail => List.rel_append head.calls tail.calls

end

end Expr

variable [Scalar α]

/-- Calls offend in the same way where they differ in letter case only. -/
theorem CallOffence.recased {f g : String} {as bs : List (Expr α)} {v : VocabularyError α}
    (h : CallOffence f as v) (hname : SameName f g) (hargs : Expr.RecasedIn as bs) :
    ∃ w, CallOffence g bs w ∧ v.Recased w := by
  have hfunction := hname.isFunction_eq
  cases h with
  | unknownFunction unknown =>
    exact ⟨_, .unknownFunction (hfunction ▸ unknown), .unknownFunction hname⟩
  | wrongArity known arity =>
    have hlength := hargs.length_eq
    refine ⟨_, .wrongArity (hfunction ▸ known) (hlength ▸ arity), ?_⟩
    rw [← hlength]
    exact .wrongArity hname as.length
  | nonLiteralArgument known other =>
    cases hargs with
    | @cons a b _ _ hhead htail =>
      cases htail
      have hb : ∀ x, b ≠ .literal x := by
        rintro x rfl
        cases hhead
        exact other x rfl
      exact ⟨_, .nonLiteralArgument (hfunction ▸ known) hb, .nonLiteralArgument hname⟩
  | @nonPositivePeriod x known low =>
    cases hargs with
    | cons hhead htail =>
      cases hhead
      cases htail
      exact ⟨_, .nonPositivePeriod (hfunction ▸ known) low, .nonPositivePeriod hname x⟩
  | @nonIntegerPeriod x known high broken =>
    cases hargs with
    | cons hhead htail =>
      cases hhead
      cases htail
      exact ⟨_, .nonIntegerPeriod (hfunction ▸ known) high broken, .nonIntegerPeriod hname x⟩

/-- Calls that differ in letter case only mean the same indicator, or offend in the same way. -/
theorem resolveCall_recased {f g : String} {as bs : List (Expr α)} (hname : SameName f g)
    (hargs : Expr.RecasedIn as bs) :
    Alike VocabularyError.Recased (resolveCall f as) (resolveCall g bs) := by
  rcases exists_resolveCall_or_offence f as with ⟨k, x, hkind, rfl, hpos, hwhole⟩ | ⟨v, hv⟩
  · cases hargs with
    | cons hhead htail =>
      cases hhead
      cases htail
      have hkind' : IndicatorKind.ofName? g = some k :=
        (IndicatorKind.ofName?_congr hname.folded_eq).symm.trans hkind
      rw [resolveCall_literal hkind hpos hwhole, resolveCall_literal hkind' hpos hwhole]
      exact .value _
  · obtain ⟨w, hw, hvw⟩ := hv.recased hname hargs
    rw [hv.resolveCall_eq, hw.resolveCall_eq]
    exact .error hvw

namespace Expr

variable {a b : Expr α}

/-- The check of an expression is a matter of its letters, not of their case. -/
theorem Recased.validate (h : a.Recased b) :
    Alike VocabularyError.Recased a.validate b.validate := by
  induction a using evalInduction generalizing b with
  | literal x =>
    cases h
    exact .value ()
  | name n =>
    cases h
    unfold Expr.validate
    split
    · exact .value ()
    · exact .error (.unknownProperty n)
  | call f args =>
    cases h with
    | call hname hargs =>
      rcases (resolveCall_recased hname hargs).ok_or_error with
        ⟨i, ha, hb⟩ | ⟨v, w, ha, hb, hvw⟩
      · simp only [Expr.validate, ha, hb]
        exact .value ()
      · simp only [Expr.validate, ha, hb]
        exact .error hvw
  | not a ih =>
    cases h with
    | not operand =>
      rw [Expr.validate, Expr.validate]
      exact ih operand
  | binary op l r ihl ihr =>
    cases h with
    | binary _ left right =>
      rcases (ihl left).ok_or_error with ⟨_, ha, hb⟩ | ⟨v, w, ha, hb, hvw⟩
      · simp only [Expr.validate, ha, hb]
        exact ihr right
      · simp only [Expr.validate, ha, hb]
        exact .error hvw

/-- The indicators that an expression calls are a matter of its letters, not of their case. -/
theorem Recased.indicators_eq (h : a.Recased b) : a.indicators = b.indicators := by
  have hcalls := h.calls
  unfold Expr.indicators
  generalize a.calls = as at hcalls
  generalize b.calls = bs at hcalls
  induction hcalls with
  | nil => rfl
  | cons hhead _ ih =>
    rcases (resolveCall_recased hhead.1 hhead.2).ok_or_error with
      ⟨i, ha, hb⟩ | ⟨v, w, ha, hb, -⟩
    · simp only [List.filterMap_cons, ha, hb, ih]
    · simp only [List.filterMap_cons, ha, hb, ih]
      rfl

/-- The value of an expression is a matter of its letters, not of their case. -/
theorem Recased.eval (h : a.Recased b) (c : Context α) :
    Alike EvalError.Recased (a.eval c) (b.eval c) := by
  induction a using evalInduction generalizing b with
  | literal x =>
    cases h
    exact .value _
  | name n =>
    cases h
    exact .refl .same _
  | call f args =>
    cases h with
    | call hname hargs =>
      rcases (resolveCall_recased hname hargs).ok_or_error with
        ⟨i, ha, hb⟩ | ⟨v, w, ha, hb, hvw⟩
      · simp only [Expr.eval, ha, hb]
        exact .value _
      · simp only [Expr.eval, ha, hb]
        exact .error (.invalidCall hname hvw)
  | not a ih =>
    cases h with
    | not operand =>
      rcases (ih operand).ok_or_error with ⟨v, ha, hb⟩ | ⟨e, e', ha, hb, hee'⟩
      · simp only [Expr.eval, ha, hb]
        exact .value _
      · simp only [Expr.eval, ha, hb]
        exact .error hee'
  | binary op l r ihl ihr =>
    cases h with
    | binary _ left right =>
      rcases (ihl left).ok_or_error with ⟨x, hla, hlb⟩ | ⟨e, e', hla, hlb, hee'⟩
      · rcases (ihr right).ok_or_error with ⟨y, hra, hrb⟩ | ⟨e, e', hra, hrb, hee'⟩
        · simp only [Expr.eval, hla, hlb, hra, hrb]
          exact .refl .same _
        · simp only [Expr.eval, hla, hlb, hra, hrb]
          exact .error hee'
      · simp only [Expr.eval, hla, hlb]
        exact .error hee'

/-- Whether a condition holds is a matter of its letters, not of their case. -/
theorem Recased.fires (h : a.Recased b) (c : Context α) :
    Alike EvalError.Recased (a.fires c) (b.fires c) := by
  rcases (h.eval c).ok_or_error with ⟨v, ha, hb⟩ | ⟨e, e', ha, hb, hee'⟩
  · rw [Expr.fires, Expr.fires, ha, hb]
    exact .refl .same _
  · rw [Expr.fires, Expr.fires, ha, hb]
    exact .error hee'

/-- Expressions that are the same but for the case of ASCII letters in the names of functions are
both accepted or both rejected, for offences that correspond. They call the same indicators and are
given the same window; and in every context they have the same value and hold alike as conditions,
or fail with errors that are the same but for the case of the names that they quote. -/
theorem letter_case_immaterial (h : a.Recased b) :
    (a.validate = .ok () ↔ b.validate = .ok ()) ∧
      Alike VocabularyError.Recased a.validate b.validate ∧
      a.indicators = b.indicators ∧ a.lookback = b.lookback ∧
      ∀ c : Context α, Alike EvalError.Recased (a.eval c) (b.eval c) ∧
        Alike EvalError.Recased (a.fires c) (b.fires c) := by
  refine ⟨h.validate.eq_ok_iff, h.validate, h.indicators_eq, ?_, fun c => ⟨h.eval c, h.fires c⟩⟩
  rw [lookback, lookback, h.indicators_eq]

/-- A call whose argument is a call, and one within the vocabulary: the first is rejected under the
name that it was given, in whichever letter case, and what both call counts. -/
theorem letter_case_immaterial_nested :
    let either (sma ema rsi : String) : Expr Float :=
      .binary .or (.call sma [.call ema [.literal 2]])
        (.binary (.compare .lt) (.call rsi [.literal 14]) (.literal 30))
    (either "SMA" "Ema" "rsi").Recased (either "sma" "EMA" "RsI") ∧
      (either "SMA" "Ema" "rsi").validate = .error (.nonLiteralArgument "SMA") ∧
      (either "sma" "EMA" "RsI").validate = .error (.nonLiteralArgument "sma") ∧
      (either "sma" "EMA" "RsI").indicators = [⟨.ema, 2⟩, ⟨.rsi, 14⟩] ∧
      (either "sma" "EMA" "RsI").lookback = 42 := by
  intro either
  have hnames : SameName "SMA" "sma" ∧ SameName "Ema" "EMA" ∧ SameName "rsi" "RsI" := by
    simp [SameName, SameLetter]
  obtain ⟨hsma, hema, hrsi⟩ := hnames
  have h : (either "SMA" "Ema" "rsi").Recased (either "sma" "EMA" "RsI") :=
    .binary .or (.call hsma (.cons (.call hema (.cons (.literal 2) .nil)) .nil))
      (.binary _ (.call hrsi (.cons (.literal 14) .nil)) (.literal 30))
  obtain ⟨-, -, hindicators, hlookback, -⟩ := letter_case_immaterial h
  have hcalls : (either "SMA" "Ema" "rsi").indicators = [⟨.ema, 2⟩, ⟨.rsi, 14⟩] := by
    decide +kernel
  have hwindow : (either "SMA" "Ema" "rsi").lookback = 42 := by decide +kernel
  exact ⟨h, rfl, rfl, hindicators ▸ hcalls, hlookback ▸ hwindow⟩

end Expr

end TradeRules
