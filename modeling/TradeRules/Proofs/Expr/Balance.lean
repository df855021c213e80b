import TradeRules.Proofs.Expr.Descent
import TradeRules.Proofs.Expr.Token

/-!
# What a call that returns has done

Wherever a procedure is called, whatever is counted there and however many places are left for
further calls: if it returns, then the nesting is as it was, at least one byte was passed, and the
operators were counted up by just those of what it returned (`counts_call`). Each step keeps
its own account of this (`Trail.Grows`), and the accounts of the steps of a body add up.
-/

namespace TradeRules

open Text Number Steps

/-- From one trail to a later one at least so many bytes were passed and exactly so many operators
counted, and every level that was entered was left. -/
structure Trail.Grows (bytes operators : Nat) (trail trail' : Trail) : Prop where
  /-- The nesting is the same. -/
  depth_eq : trail'.now.depth = trail.now.depth
  /-- The position is further on. -/
  position_le : trail.now.position + bytes ≤ trail'.now.position
  /-- So many operators and calls were counted. -/
  operators_eq : trail'.now.operators = trail.now.operators + operators

namespace Trail.Grows

variable {a b m n : Nat} {trail trail' trail'' : Trail}

theorem refl (trail : Trail) : Grows 0 0 trail trail := ⟨rfl, Nat.le_refl _, rfl⟩

/-- Accounts add up. -/
theorem trans (h : Grows a m trail trail') (h' : Grows b n trail' trail'') :
    Grows (a + b) (m + n) trail trail'' := by
  obtain ⟨hdepth, hposition, hoperators⟩ := h
  obtain ⟨hdepth', hposition', hoperators'⟩ := h'
  exact ⟨hdepth'.trans hdepth, by omega, by omega⟩

/-- An account may be kept with fewer bytes, and with an equal number of operators. -/
theorem weaken (h : Grows a m trail trail') (hbytes : b ≤ a) (hoperators : m = n) :
    Grows b n trail trail' :=
  ⟨h.depth_eq, Nat.le_trans (Nat.add_le_add_left hbytes _) h.position_le,
    hoperators ▸ h.operators_eq⟩

end Trail.Grows

open Trail (Grows)

section Steps

variable {β γ σ : Type} {text : List Char} {trail trail' : Trail}

/-- Steps return a result and come to a trail. -/
def Returns (m : Steps β) (trail : Trail) (b : β) (trail' : Trail) : Prop :=
  m.run trail = .ok b trail'

/-- What returns at the end has returned at each step. -/
theorem Returns.of_bind {m : Steps β} {f : β → Steps γ} {g : γ}
    (h : Returns (m >>= f) trail g trail') :
    ∃ b between, Returns m trail b between ∧ Returns (f b) between g trail' := by
  rw [Returns, EStateM.run_bind] at h
  split at h
  · rename_i b between hm
    exact ⟨b, between, hm, h⟩
  · cases h

theorem Returns.of_pure {b b' : β} (h : Returns (pure b) trail b' trail') :
    b' = b ∧ trail' = trail := by
  cases h
  exact ⟨rfl, rfl⟩

theorem not_returns_refuseAt {position : Nat} {fault : ParseFault} {b : β} :
    ¬ Returns (refuseAt position fault) trail b trail' := by
  intro h
  cases h

theorem not_returns_refuse {fault : ParseFault} {b : β} :
    ¬ Returns (refuse fault) trail b trail' := by
  intro h
  obtain ⟨c, between, -, h⟩ := h.of_bind
  exact not_returns_refuseAt h

/-! ### Steps that only look -/

/-- Steps that move nothing. -/
def Looks (m : Steps β) : Prop := ∀ ⦃trail b trail'⦄, Returns m trail b trail' → trail' = trail

theorem looks_pure (b : β) : Looks (pure b) := fun _ _ _ h => h.of_pure.2

theorem Looks.bind {m : Steps β} {f : β → Steps γ} (hm : Looks m) (hf : ∀ b, Looks (f b)) :
    Looks (m >>= f) := by
  intro trail g trail' h
  obtain ⟨b, between, hm', h⟩ := h.of_bind
  exact (hf b h).trans (hm hm')

/-- Steps that only look return on the trail where they began. -/
theorem Returns.of_looks {m : Steps β} {f : β → Steps γ} {g : γ} (hm : Looks m)
    (h : Returns (m >>= f) trail g trail') :
    ∃ b, Returns m trail b trail ∧ Returns (f b) trail g trail' := by
  obtain ⟨b, between, hb, hf⟩ := h.of_bind
  obtain rfl := hm hb
  exact ⟨b, hb, hf⟩

theorem looks_cursor : Looks cursor := by
  intro trail c trail' h
  cases h
  rfl

theorem looks_cut (n : Nat) (cs : List Char) : Looks (cut n cs) := by
  intro trail parts trail' h
  unfold cut at h
  split at h
  · exact h.of_pure.2
  · cases h

theorem looks_remaining (text : List Char) : Looks (remaining text) :=
  looks_cursor.bind fun _ => (looks_cut _ _).bind fun _ => looks_pure _

theorem looks_peek (text : List Char) : Looks (peek text) :=
  (looks_remaining text).bind fun _ => looks_pure _

theorem looks_peekSecond (text : List Char) : Looks (peekSecond text) :=
  (looks_remaining text).bind fun _ => looks_pure _

theorem looks_since (text : List Char) (start : Nat) : Looks (since text start) :=
  looks_cursor.bind fun _ => (looks_cut _ _).bind fun _ => (looks_cut _ _).bind fun _ =>
    looks_pure _

theorem looks_wordIsNext (text w : List Char) : Looks (wordIsNext text w) := by
  refine (looks_remaining text).bind fun rest => ?_
  split
  · exact (looks_cut _ _).bind fun _ => looks_pure _
  · exact looks_pure _

theorem looks_firstWord? (text : List Char) (words : List (List Char)) :
    Looks (firstWord? text words) := by
  induction words with
  | nil => exact looks_pure _
  | cons w words ih =>
    refine (looks_wordIsNext text w).bind fun found => ?_
    split
    · exact looks_pure _
    · exact ih

theorem looks_numberIsNext (text : List Char) : Looks (numberIsNext text) := by
  refine (looks_peek text).bind fun next => ?_
  split
  · exact looks_pure _
  · split
    · exact looks_pure _
    · split
      · exact (looks_peekSecond text).bind fun _ => looks_pure _
      · exact looks_pure _

/-! ### Steps that move on -/

theorem Returns.now_of_move {f : Cursor → Cursor} {u : Unit}
    (h : Returns (move f) trail u trail') : trail'.now = f trail.now := by
  cases h
  rfl

/-- Passing bytes is all that such a move does. -/
theorem grows_of_pass {n : Nat} {u : Unit}
    (h : Returns (move fun c => { c with position := c.position + n }) trail u trail') :
    Grows n 0 trail trail' := by
  have hnow := h.now_of_move
  exact ⟨by rw [hnow], Nat.le_of_eq (by rw [hnow]), by rw [hnow, Nat.add_zero]⟩

/-- Passing the next character moves the position, if there is one. -/
theorem grows_of_advance {u : Unit} (h : Returns (advance text) trail u trail') :
    Grows 0 0 trail trail' ∧
      ∀ c, Returns (peek text) trail (some c) trail → Grows 1 0 trail trail' := by
  obtain ⟨next, hpeek, h⟩ := h.of_looks (looks_peek text)
  cases next with
  | none =>
    obtain ⟨-, rfl⟩ := h.of_pure
    -- Looking at the next character twice gives the same answer.
    refine ⟨.refl _, fun c hnext => ?_⟩
    rw [Returns, hpeek] at hnext
    cases hnext
  | some c => exact ⟨(grows_of_pass h).weaken (Nat.zero_le _) rfl,
      fun _ _ => (grows_of_pass h).weaken c.utf8Size_pos rfl⟩

/-- A scan passes at least as many bytes as it has added to what was seen. -/
theorem grows_of_scan {add : σ → Char → Option σ} (size : σ → Nat)
    (hsize : ∀ seen c more, add seen c = some more → size more ≤ size seen + 1) {n : Nat}
    {seen seen' : σ} (h : Returns (scan text add n seen) trail seen' trail') :
    Grows (size seen' - size seen) 0 trail trail' := by
  induction n generalizing trail seen with
  | zero => cases h
  | succ n ih =>
    rw [scan] at h
    obtain ⟨next, hpeek, h⟩ := h.of_looks (looks_peek text)
    split at h
    · obtain ⟨rfl, rfl⟩ := h.of_pure
      exact (Trail.Grows.refl _).weaken (Nat.le_of_eq (Nat.sub_self _)) rfl
    · rename_i more hadd
      obtain ⟨c, rfl, hadd⟩ := Option.bind_eq_some_iff.1 hadd
      obtain ⟨u, later, hadvance, h⟩ := h.of_bind
      have hstep := (grows_of_advance hadvance).2 c hpeek
      have := hsize seen c more hadd
      exact (hstep.trans (ih h)).weaken (by omega) rfl

/-- A scan that can add the next character passes it. -/
theorem grows_of_scan_some {add : σ → Char → Option σ} {n : Nat} {seen seen' more : σ} {c : Char}
    (hnext : Returns (peek text) trail (some c) trail) (hadd : add seen c = some more)
    (h : Returns (scan text add n seen) trail seen' trail') : Grows 1 0 trail trail' := by
  cases n with
  | zero => cases h
  | succ n =>
    rw [scan] at h
    obtain ⟨next, between, hpeek, h⟩ := h.of_bind
    rw [Returns, hnext] at hpeek
    cases hpeek
    rw [Option.bind_some, hadd] at h
    obtain ⟨u, later, hadvance, h⟩ := h.of_bind
    have hrest := grows_of_scan (fun _ => 0) (fun _ _ _ _ => Nat.le_succ 0) h
    exact ((grows_of_advance hadvance).2 c hnext).trans hrest

theorem grows_of_passWhile {p : Char → Bool} {u : Unit}
    (h : Returns (passWhile text p) trail u trail') : Grows 0 0 trail trail' :=
  grows_of_scan (fun _ => 0) (fun _ _ _ _ => Nat.le_succ 0) h

theorem grows_of_skipBlanks {u : Unit} (h : Returns (skipBlanks text) trail u trail') :
    Grows 0 0 trail trail' :=
  grows_of_passWhile h

theorem grows_of_consume? {w : List Char} {found : Bool}
    (h : Returns (consume? text w) trail found trail') : Grows 0 0 trail trail' := by
  obtain ⟨rest, hrest, h⟩ := h.of_looks (looks_remaining text)
  split at h
  · obtain ⟨u, later, hpass, h⟩ := h.of_bind
    obtain ⟨-, rfl⟩ := h.of_pure
    exact (grows_of_pass hpass).weaken (Nat.zero_le _) rfl
  · obtain ⟨-, rfl⟩ := h.of_pure
    exact .refl _

theorem grows_of_consumeWord? {w : List Char} {found : Bool}
    (h : Returns (consumeWord? text w) trail found trail') : Grows 0 0 trail trail' := by
  obtain ⟨u, between, hblanks, h⟩ := h.of_bind
  have hskipped := grows_of_skipBlanks hblanks
  obtain ⟨next, hnext, h⟩ := h.of_looks (looks_wordIsNext text w)
  split at h
  · obtain ⟨u, later, hpass, h⟩ := h.of_bind
    obtain ⟨-, rfl⟩ := h.of_pure
    exact (hskipped.trans (grows_of_pass hpass)).weaken (Nat.zero_le _) rfl
  · obtain ⟨-, rfl⟩ := h.of_pure
    exact hskipped

/-- A mark that had to come next takes a byte. -/
theorem grows_of_expect {mark : Char} {u : Unit}
    (h : Returns (expect text mark) trail u trail') : Grows 1 0 trail trail' := by
  obtain ⟨u, between, hblanks, h⟩ := h.of_bind
  obtain ⟨next, hpeek, h⟩ := h.of_looks (looks_peek text)
  split at h
  · rename_i hmark
    rw [hmark] at hpeek
    exact (grows_of_skipBlanks hblanks).trans ((grows_of_advance h).2 mark hpeek)
  · obtain ⟨found, later, -, h⟩ := h.of_bind
    exact absurd h not_returns_refuse

/-- A name that starts at the next character takes a byte. -/
theorem grows_of_name {word : List Char} {c : Char}
    (hnext : Returns (peek text) trail (some c) trail) (hc : isNameChar c = true)
    (h : Returns (name text) trail word trail') : Grows 1 0 trail trail' := by
  obtain ⟨start, hstart, h⟩ := h.of_looks looks_cursor
  obtain ⟨u, later, hpass, h⟩ := h.of_bind
  obtain rfl := looks_since text _ h
  exact grows_of_scan_some hnext (if_pos hc) hpass

/-- A further character adds one digit at most. -/
theorem addPlace_digits_le (seen : Bool × Nat) (c : Char) (more : Bool × Nat)
    (h : addPlace seen c = some more) : more.2 ≤ seen.2 + 1 := by
  unfold addPlace at h
  split at h
  · cases h
    exact Nat.le_refl _
  · split at h
    · cases h
      exact Nat.le_succ _
    · cases h

/-- A number takes as many bytes as it has digits, and it has one. -/
theorem grows_of_number {α : Type} [Scalar α] {x : α}
    (h : Returns (number text) trail x trail') : Grows 1 0 trail trail' := by
  obtain ⟨start, hstart, h⟩ := h.of_looks looks_cursor
  obtain ⟨u, signed, hsign, h⟩ := h.of_bind
  obtain ⟨seen, scanned, hscan, h⟩ := h.of_bind
  have hsigned : Grows 0 0 trail signed := by
    obtain ⟨next, hpeek, hsign⟩ := hsign.of_looks (looks_peek text)
    split at hsign
    · exact (grows_of_advance hsign).1
    · obtain ⟨-, rfl⟩ := hsign.of_pure
      exact .refl _
  have hdigits := grows_of_scan Prod.snd addPlace_digits_le hscan
  split at h
  · exact absurd h not_returns_refuseAt
  · rename_i hsome
    obtain ⟨numeral, hsince, h⟩ := h.of_looks (looks_since text _)
    dsimp only at h
    split at h
    · obtain ⟨-, rfl⟩ := h.of_pure
      exact (hsigned.trans hdigits).weaken (by omega) rfl
    · exact absurd h not_returns_refuseAt

theorem grows_of_firstComparison? {cs : List Comparison} {found : Option Comparison}
    (h : Returns (firstComparison? text cs) trail found trail') : Grows 0 0 trail trail' := by
  induction cs generalizing trail with
  | nil =>
    obtain ⟨-, rfl⟩ := h.of_pure
    exact .refl _
  | cons c cs ih =>
    obtain ⟨next, between, hconsume, h⟩ := h.of_bind
    have hfirst := grows_of_consume? hconsume
    split at h
    · obtain ⟨-, rfl⟩ := h.of_pure
      exact hfirst
    · exact hfirst.trans (ih h)

theorem grows_of_comparison? {found : Option Comparison}
    (h : Returns (comparison? text) trail found trail') : Grows 0 0 trail trail' := by
  obtain ⟨u, between, hblanks, h⟩ := h.of_bind
  obtain ⟨first, later, hfirst, h⟩ := h.of_bind
  have hpassed := (grows_of_skipBlanks hblanks).trans (grows_of_firstComparison? hfirst)
  split at h
  · obtain ⟨-, rfl⟩ := h.of_pure
    exact hpassed
  · obtain ⟨next, hpeek, h⟩ := h.of_looks (looks_peek text)
    split at h
    · exact absurd h not_returns_refuse
    · split at h
      · exact absurd h not_returns_refuse
      · obtain ⟨-, rfl⟩ := h.of_pure
        exact hpassed

theorem grows_of_eitherMark? {mark mark' : Char} {op op' : BinaryOp} {found : Option BinaryOp}
    (h : Returns (eitherMark? text mark mark' op op') trail found trail') :
    Grows 0 0 trail trail' := by
  obtain ⟨u, between, hblanks, h⟩ := h.of_bind
  obtain ⟨first, later, hfirst, h⟩ := h.of_bind
  have hpassed := (grows_of_skipBlanks hblanks).trans (grows_of_consume? hfirst)
  split at h
  · obtain ⟨-, rfl⟩ := h.of_pure
    exact hpassed
  · obtain ⟨second, further, hsecond, h⟩ := h.of_bind
    have hpassed' := hpassed.trans (grows_of_consume? hsecond)
    split at h
    · obtain ⟨-, rfl⟩ := h.of_pure
      exact hpassed'
    · obtain ⟨-, rfl⟩ := h.of_pure
      exact hpassed'

theorem grows_of_markWord? {w : List Char} {op : BinaryOp} {found : Option BinaryOp}
    (h : Returns (markWord? text w op) trail found trail') : Grows 0 0 trail trail' := by
  obtain ⟨next, between, hword, h⟩ := h.of_bind
  have hpassed := grows_of_consumeWord? hword
  split at h
  · obtain ⟨-, rfl⟩ := h.of_pure
    exact hpassed
  · obtain ⟨-, rfl⟩ := h.of_pure
    exact hpassed

theorem grows_of_operator? {k : Chain} {found : Option BinaryOp}
    (h : Returns (operator? text k) trail found trail') : Grows 0 0 trail trail' := by
  cases k with
  | disjunction => exact grows_of_markWord? h
  | conjunction => exact grows_of_markWord? h
  | sum => exact grows_of_eitherMark? h
  | product => exact grows_of_eitherMark? h

/-! ### Counters -/

/-- An operator is counted. -/
theorem grows_of_addOperator {u : Unit} (h : Returns addOperator trail u trail') :
    Grows 0 1 trail trail' := by
  obtain ⟨u, between, hmove, h⟩ := h.of_bind
  have hnow := hmove.now_of_move
  obtain ⟨c, hcursor, h⟩ := h.of_looks looks_cursor
  split at h
  · exact absurd h not_returns_refuse
  · obtain ⟨-, rfl⟩ := h.of_pure
    exact ⟨by rw [hnow], Nat.le_of_eq (by rw [hnow, Nat.add_zero]), by rw [hnow]⟩

/-- Entering a level adds one to the nesting, and that is all. -/
theorem now_of_enter {u : Unit} (h : Returns enter trail u trail') :
    trail'.now = { trail.now with depth := trail.now.depth + 1 } := by
  obtain ⟨u, between, hmove, h⟩ := h.of_bind
  obtain ⟨c, hcursor, h⟩ := h.of_looks looks_cursor
  split at h
  · exact absurd h not_returns_refuse
  · obtain ⟨-, rfl⟩ := h.of_pure
    exact hmove.now_of_move

/-- Leaving a level takes one from the nesting, and that is all. -/
theorem now_of_leave {u : Unit} (h : Returns leave trail u trail') :
    trail.now = { trail'.now with depth := trail'.now.depth + 1 } := by
  obtain ⟨c, between, hcursor, h⟩ := h.of_bind
  cases hcursor
  split at h
  · cases h
  · rename_i depth hdepth
    rw [h.now_of_move]
    dsimp only
    rw [show depth + 1 = trail.now.depth from hdepth.symm]

/-- What is done between entering a level and leaving it leaves the nesting as it was. -/
theorem grows_of_level {bytes operators : Nat} {entered left : Trail} {u u' : Unit}
    (henter : Returns enter trail u entered) (h : Grows bytes operators entered left)
    (hleave : Returns leave left u' trail') : Grows bytes operators trail trail' := by
  obtain ⟨hdepth, hposition, hoperators⟩ := h
  rw [now_of_enter henter, now_of_leave hleave] at hdepth hposition hoperators
  exact ⟨Nat.succ.inj hdepth, hposition, hoperators⟩

/-! ### Counting steps -/

/-- Steps that pass a byte and count the operators of what they return. -/
def Counts (count : β → Nat) (m : Steps β) : Prop :=
  ∀ ⦃trail b trail'⦄, Returns m trail b trail' → Grows 1 (count b) trail trail'

/-- Being at work takes nothing and counts nothing. -/
theorem Counts.during {count : β → Nat} {m : Steps β} (hm : Counts count m) (p : Procedure) :
    Counts count (Steps.during p m) := by
  intro trail b trail' h
  obtain ⟨u, called, hcalled, h⟩ := h.of_bind
  obtain ⟨b, returned, hreturned, h⟩ := h.of_bind
  obtain ⟨u, later, hdone, h⟩ := h.of_bind
  obtain ⟨rfl, rfl⟩ := h.of_pure
  obtain ⟨hdepth, hposition, hoperators⟩ := hm hreturned
  rw [hcalled.now_of_move] at hdepth hposition hoperators
  exact ⟨by rw [hdone.now_of_move, hdepth], by rw [hdone.now_of_move]; exact hposition,
    by rw [hdone.now_of_move, hoperators]⟩

end Steps

/-! ### Procedures -/

section Procedures

variable {α : Type} {text : List Char} {trail trail' : Trail}

/-- The operators of two rows of expressions are those of both. -/
theorem Expr.operatorsIn_append (as bs : List (Expr α)) :
    operatorsIn (as ++ bs) = operatorsIn as + operatorsIn bs := by
  induction as with
  | nil => rw [List.nil_append, operatorsIn, Nat.zero_add]
  | cons a as ih => rw [List.cons_append, operatorsIn, operatorsIn, ih, Nat.add_assoc]

/-- The operators and calls of what a procedure returns. -/
def Procedure.nodes : (p : Procedure) → p.Yield α → Nat
  | .arguments, as => Expr.operatorsIn as
  | .disjunction, e | .conjunction, e | .negation, e | .comparison, e | .sum, e | .product, e
  | .primary, e => Expr.operators e

/-- The rest of a row counts the operators that come to its first operands. -/
theorem grows_of_continueRow {k : Chain} {operand : Steps (Expr α)}
    (hoperand : Counts Expr.operators operand) {n : Nat} {left e : Expr α}
    (h : Returns (continueRow text k operand n left) trail e trail') :
    ∃ more, Grows 0 more trail trail' ∧ e.operators = left.operators + more := by
  induction n generalizing trail left with
  | zero => cases h
  | succ n ih =>
    rw [continueRow] at h
    obtain ⟨next, between, hnext, h⟩ := h.of_bind
    have hpassed := grows_of_operator? hnext
    split at h
    · obtain ⟨rfl, rfl⟩ := h.of_pure
      exact ⟨0, hpassed, rfl⟩
    · rename_i op
      obtain ⟨u, counted, hadd, h⟩ := h.of_bind
      obtain ⟨right, later, hright, h⟩ := h.of_bind
      obtain ⟨more, hmore, hoperators⟩ := ih h
      have hread := (hpassed.trans (grows_of_addOperator hadd)).trans (hoperand hright)
      refine ⟨_, (hread.trans hmore).weaken (Nat.zero_le _) rfl, ?_⟩
      rw [hoperators, Expr.operators]
      omega

theorem counts_row {k : Chain} {operand : Steps (Expr α)}
    (hoperand : Counts Expr.operators operand) : Counts Expr.operators (row text k operand) := by
  intro trail e trail' h
  obtain ⟨left, between, hleft, h⟩ := h.of_bind
  obtain ⟨more, hmore, hoperators⟩ := grows_of_continueRow hoperand h
  exact ((hoperand hleft).trans hmore).weaken (Nat.le_refl _) hoperators.symm

/-- Further arguments count the operators that come to those before. -/
theorem grows_of_moreArguments {argument : Steps (Expr α)}
    (hargument : Counts Expr.operators argument) {n : Nat} {read as : List (Expr α)}
    (h : Returns (moreArguments text argument n read) trail as trail') :
    ∃ more, Grows 0 more trail trail' ∧
      Expr.operatorsIn as = Expr.operatorsIn read + more := by
  induction n generalizing trail read with
  | zero => cases h
  | succ n ih =>
    rw [moreArguments] at h
    obtain ⟨u, between, hblanks, h⟩ := h.of_bind
    have hskipped := grows_of_skipBlanks hblanks
    obtain ⟨next, hnext, h⟩ := h.of_looks (looks_peek text)
    split at h
    · obtain ⟨u, closed, hclosing, h⟩ := h.of_bind
      obtain ⟨rfl, rfl⟩ := h.of_pure
      exact ⟨0, hskipped.trans (grows_of_advance hclosing).1, rfl⟩
    · obtain ⟨u, behind, hcomma, h⟩ := h.of_bind
      obtain ⟨a, later, ha, h⟩ := h.of_bind
      obtain ⟨more, hmore, hoperators⟩ := ih h
      have hread := (hskipped.trans (grows_of_expect hcomma)).trans (hargument ha)
      refine ⟨_, (hread.trans hmore).weaken (Nat.zero_le _) rfl, ?_⟩
      rw [hoperators, Expr.operatorsIn_append, Expr.operatorsIn, Expr.operatorsIn]
      omega

namespace Procedure

variable {call : (p : Procedure) → Steps (p.Yield α)}

theorem counts_negated (hnegation : Counts Expr.operators (call .negation))
    (hcomparison : Counts Expr.operators (call .comparison)) :
    Counts Expr.operators (negated text call) := by
  intro trail e trail' h
  obtain ⟨found, between, hword, h⟩ := h.of_bind
  have hpassed := grows_of_consumeWord? hword
  split at h
  · obtain ⟨u, counted, hadd, h⟩ := h.of_bind
    obtain ⟨u, entered, henter, h⟩ := h.of_bind
    obtain ⟨operand, read, hread, h⟩ := h.of_bind
    obtain ⟨u, left, hleave, h⟩ := h.of_bind
    obtain ⟨rfl, rfl⟩ := h.of_pure
    have hnested := grows_of_level henter (hnegation hread) hleave
    refine ((hpassed.trans (grows_of_addOperator hadd)).trans hnested).weaken (Nat.le_refl _) ?_
    rw [Expr.operators, Nat.zero_add]
  · exact (hpassed.trans (hcomparison h)).weaken (Nat.le_refl _) (Nat.zero_add _)

theorem counts_compared (hsum : Counts Expr.operators (call .sum)) :
    Counts Expr.operators (compared text call) := by
  intro trail e trail' h
  obtain ⟨left, between, hleft, h⟩ := h.of_bind
  obtain ⟨found, behind, hfound, h⟩ := h.of_bind
  have hread := (hsum hleft).trans (grows_of_comparison? hfound)
  split at h
  · obtain ⟨rfl, rfl⟩ := h.of_pure
    exact hread
  · obtain ⟨u, counted, hadd, h⟩ := h.of_bind
    obtain ⟨right, later, hright, h⟩ := h.of_bind
    obtain ⟨second, further, hsecond, h⟩ := h.of_bind
    split at h
    · exact absurd h not_returns_refuse
    · obtain ⟨rfl, rfl⟩ := h.of_pure
      -- Each of the two sums has passed a byte, and one would do.
      have hboth := (hread.trans (grows_of_addOperator hadd)).trans (hsum hright)
      refine (hboth.trans (grows_of_comparison? hsecond)).weaken (Nat.le_add_left _ _) ?_
      rw [Expr.operators]
      omega

theorem counts_grouped (hexpression : Counts Expr.operators (call .disjunction)) :
    Counts Expr.operators (grouped text call) := by
  intro trail e trail' h
  obtain ⟨u, between, hopening, h⟩ := h.of_bind
  obtain ⟨u, entered, henter, h⟩ := h.of_bind
  obtain ⟨inner, read, hread, h⟩ := h.of_bind
  obtain ⟨u, closed, hclosing, h⟩ := h.of_bind
  obtain ⟨u, left, hleave, h⟩ := h.of_bind
  obtain ⟨rfl, rfl⟩ := h.of_pure
  have hclosed := (hexpression hread).trans (grows_of_expect hclosing)
  have hnested := grows_of_level henter hclosed hleave
  exact ((grows_of_advance hopening).1.trans hnested).weaken (Nat.le_add_left _ _)
    (Nat.zero_add _)

/-- A name takes a byte where it starts. -/
theorem grows_of_named (harguments : Counts Expr.operatorsIn (call .arguments)) {c : Char}
    (hnext : Returns (peek text) trail (some c) trail) (hc : isNameStart c = true) {e : Expr α}
    (h : Returns (named text call) trail e trail') : Grows 1 e.operators trail trail' := by
  obtain ⟨keyword, hkeyword, h⟩ := h.of_looks (looks_firstWord? text _)
  split at h
  · obtain ⟨rest, later, -, h⟩ := h.of_bind
    exact absurd h not_returns_refuse
  · obtain ⟨word, behind, hword, h⟩ := h.of_bind
    obtain ⟨u, skipped, hblanks, h⟩ := h.of_bind
    obtain ⟨opening, hopening, h⟩ := h.of_looks (looks_peek text)
    have hread := (grows_of_name hnext (Grammar.isNameChar_of_isNameStart hc) hword).trans
      (grows_of_skipBlanks hblanks)
    split at h
    · obtain ⟨u, counted, hadd, h⟩ := h.of_bind
      obtain ⟨args, later, hargs, h⟩ := h.of_bind
      obtain ⟨rfl, rfl⟩ := h.of_pure
      have hcalled := (hread.trans (grows_of_addOperator hadd)).trans (harguments hargs)
      exact hcalled.weaken (Nat.le_add_left _ _) (by rw [Expr.operators])
    · obtain ⟨rfl, rfl⟩ := h.of_pure
      exact hread

theorem counts_operand [Scalar α] (hexpression : Counts Expr.operators (call .disjunction))
    (harguments : Counts Expr.operatorsIn (call .arguments)) :
    Counts Expr.operators (operand text call) := by
  intro trail e trail' h
  obtain ⟨u, between, hblanks, h⟩ := h.of_bind
  have hskipped := grows_of_skipBlanks hblanks
  obtain ⟨next, hnext, h⟩ := h.of_looks (looks_peek text)
  split at h
  · exact absurd h not_returns_refuse
  · split at h
    · exact (hskipped.trans (counts_grouped hexpression h)).weaken (Nat.le_refl _)
        (Nat.zero_add _)
    · obtain ⟨isNumber, hnumber, h⟩ := h.of_looks (looks_numberIsNext text)
      split at h
      · obtain ⟨x, read, hread, h⟩ := h.of_bind
        obtain ⟨rfl, rfl⟩ := h.of_pure
        exact hskipped.trans (grows_of_number hread)
      · split at h
        · rename_i hstart
          exact (hskipped.trans (grows_of_named harguments hnext hstart h)).weaken
            (Nat.le_refl _) (Nat.zero_add _)
        · exact absurd h not_returns_refuse

theorem counts_listed (hexpression : Counts Expr.operators (call .disjunction)) :
    Counts Expr.operatorsIn (listed text call) := by
  intro trail as trail' h
  obtain ⟨u, opened, hopening, h⟩ := h.of_bind
  obtain ⟨u, between, hblanks, h⟩ := h.of_bind
  have hbegun := (grows_of_expect hopening).trans (grows_of_skipBlanks hblanks)
  obtain ⟨next, hnext, h⟩ := h.of_looks (looks_peek text)
  split at h
  · obtain ⟨u, closed, hclosing, h⟩ := h.of_bind
    obtain ⟨rfl, rfl⟩ := h.of_pure
    exact hbegun.trans (grows_of_advance hclosing).1
  · obtain ⟨u, entered, henter, h⟩ := h.of_bind
    obtain ⟨first, read, hfirst, h⟩ := h.of_bind
    obtain ⟨all, closed, hall, h⟩ := h.of_bind
    obtain ⟨u, left, hleave, h⟩ := h.of_bind
    obtain ⟨rfl, rfl⟩ := h.of_pure
    obtain ⟨more, hmore, hoperators⟩ := grows_of_moreArguments hexpression hall
    have hnested := grows_of_level henter ((hexpression hfirst).trans hmore) hleave
    refine (hbegun.trans hnested).weaken (Nat.le_add_right _ _) ?_
    rw [hoperators, Expr.operatorsIn, Expr.operatorsIn]
    omega

/-- Each procedure counts what it returns, given that what it calls does. -/
theorem counts_body [Scalar α] (hcall : ∀ p, Counts p.nodes (call p)) (p : Procedure) :
    Counts p.nodes (p.body text call) := by
  cases p with
  | disjunction => exact counts_row (hcall .conjunction)
  | conjunction => exact counts_row (hcall .negation)
  | negation => exact counts_negated (hcall .negation) (hcall .comparison)
  | comparison => exact counts_compared (hcall .sum)
  | sum => exact counts_row (hcall .product)
  | product => exact counts_row (hcall .primary)
  | primary => exact counts_operand (hcall .disjunction) (hcall .arguments)
  | arguments => exact counts_listed (hcall .disjunction)

end Procedure

/-- A call that returns has passed a byte, has left each level that it entered, and has counted the
operators and calls of what it returns. -/
theorem counts_call [Scalar α] (text : List Char) (n : Nat) (p : Procedure) :
    Counts p.nodes (call text n p : Steps (p.Yield α)) := by
  induction n generalizing p with
  | zero =>
    -- Where no place is left, nothing is returned.
    intro trail v trail' h
    cases h
  | succ n ih => exact (Procedure.counts_body ih p).during p

end Procedures

end TradeRules
