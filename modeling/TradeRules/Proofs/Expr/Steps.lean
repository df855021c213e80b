import TradeRules.Proofs.Expr.Cursor
import TradeRules.Proofs.Expr.Places
import TradeRules.Proofs.Text.Lines

/-!
# What the steps of a run lead to

A cursor is sound if the text can be cut at its position, if it is nested no deeper than one level
beyond the limit, and if every procedure at work was called further inside than those that called it
(`Cursor.Sound`). Steps lead from one cursor to another (`Leads`), or refuse the text (`Refuses`),
if they do so by sound cursors only. Each token is passed by steps that lead where the reader of
states goes (`State.cursor`).
-/

namespace TradeRules

open Text Number

namespace Text.Utf8

/-- A text can be cut between any two of its parts. -/
theorem cut?_append (before after : List Char) :
    cut? (length before) (before ++ after) = some (before, after) := by
  induction before with
  | nil => cases after <;> rfl
  | cons c before ih =>
    obtain ⟨n, hn⟩ := Nat.exists_eq_succ_of_ne_zero (Nat.ne_of_gt c.utf8Size_pos)
    have hlength : length (c :: before) = n + length before + 1 := by
      rw [length, hn]
      omega
    have hrest : n + length before + 1 - c.utf8Size = length before := by omega
    rw [hlength, List.cons_append, cut?, if_pos (by omega), hrest, ih]
    rfl

/-- Where a text can be cut, the parts make up the text. -/
theorem append_of_cut? {n : Nat} {cs before after : List Char}
    (h : cut? n cs = some (before, after)) : cs = before ++ after ∧ length before = n := by
  induction cs generalizing n before with
  | nil =>
    cases n with
    | zero =>
      cases h
      exact ⟨rfl, rfl⟩
    | succ n => cases h
  | cons c cs ih =>
    cases n with
    | zero =>
      cases h
      exact ⟨rfl, rfl⟩
    | succ n =>
      rw [cut?] at h
      split at h
      · rename_i hsize
        obtain ⟨⟨front, back⟩, hcut, hparts⟩ := Option.map_eq_some_iff.1 h
        cases hparts
        obtain ⟨happend, hlength⟩ := ih hcut
        refine ⟨by rw [List.cons_append, ← happend], ?_⟩
        rw [length, hlength]
        omega
      · cases h

/-- A cut at a byte position gives the two parts of the text that meet there. -/
theorem cut?_eq_some_iff {n : Nat} {cs before after : List Char} :
    cut? n cs = some (before, after) ↔ cs = before ++ after ∧ length before = n := by
  constructor
  · exact append_of_cut?
  · rintro ⟨rfl, rfl⟩
    exact cut?_append before after

/-- Whether a text can be cut at a byte position. -/
def Cuts (n : Nat) (cs : List Char) : Prop :=
  ∃ before after, cs = before ++ after ∧ length before = n

end Text.Utf8

/-! ### Procedures at work -/

/-- How strongly what a procedure reads binds; argument lists come last. -/
def Procedure.level : Procedure → Nat
  | .disjunction => 1
  | .conjunction => 2
  | .negation => 3
  | .comparison => 4
  | .sum => 5
  | .product => 6
  | .primary => 7
  | .arguments => 8

theorem Procedure.level_bounds (p : Procedure) : 1 ≤ p.level ∧ p.level ≤ 8 := by
  cases p <;> decide

/-- The place of a call among all calls, by its nesting and then by the level. -/
def Activation.rank (a : Activation) : Nat := 8 * a.depth + a.procedure.level

/-- Each procedure was called behind the ones that called it, and within the limit. -/
structure Stacked (active : List Activation) : Prop where
  /-- The last call has the highest rank. -/
  descending : active.Pairwise fun inner outer => outer.rank < inner.rank
  /-- No call is nested too deeply. -/
  depth_le : ∀ a ∈ active, a.depth ≤ maxNesting

/-- All procedures at work were called before a call of a given rank. -/
def Precede (active : List Activation) (rank : Nat) : Prop := ∀ a ∈ active, a.rank < rank

/-- A call within the limit may come on top of those before. -/
theorem Stacked.call {active : List Activation} {a : Activation} (h : Stacked active)
    (hbefore : Precede active a.rank) (hdepth : a.depth ≤ maxNesting) : Stacked (a :: active) :=
  ⟨List.pairwise_cons.2 ⟨hbefore, h.descending⟩, List.forall_mem_cons.2 ⟨hdepth, h.depth_le⟩⟩

/-- What precedes a call precedes every call that it makes. -/
theorem Precede.call {active : List Activation} {a : Activation} {rank : Nat}
    (h : Precede active a.rank) (hrank : a.rank < rank) : Precede (a :: active) rank :=
  List.forall_mem_cons.2 ⟨hrank, fun b hb => Nat.lt_trans (h b hb) hrank⟩

/-! ### Sound cursors -/

/-- A cursor as it should be. -/
structure Cursor.Sound (text : List Char) (c : Cursor) : Prop where
  /-- No character stands across its position. -/
  cuts : Utf8.Cuts c.position text
  /-- The level beyond the limit is noticed before anything is read there. -/
  depth_le : c.depth ≤ maxNesting + 1
  /-- The procedures at work were called one inside the other. -/
  stacked : Stacked c.active

/-- A run that has come to sound cursors only. -/
def Trail.Sound (text : List Char) (trail : Trail) : Prop := ∀ c ∈ trail.cursors, c.Sound text

namespace State

variable {text : List Char} {s t : State} {d : Nat} {active : List Activation}

/-- A state that is left with the rest of a text. -/
def LiesIn (s : State) (text : List Char) : Prop :=
  ∃ before, text = before ++ s.rest ∧ Utf8.length before = s.offset

/-- The cursor of a state, at some nesting and with some procedures at work. -/
def cursor (s : State) (d : Nat) (active : List Activation) : Cursor :=
  ⟨s.offset, d, s.operators, active⟩

/-- Reading on stays in the text. -/
theorem LiesIn.consume (h : s.LiesIn text) (n : Nat) : (s.consume n).LiesIn text := by
  obtain ⟨before, htext, hoffset⟩ := h
  refine ⟨before ++ s.rest.take n, ?_, ?_⟩
  · rw [htext, List.append_assoc, rest_consume, List.take_append_drop]
  · rw [Utf8.length_append, hoffset]
    rfl

/-- What is reached is in the text. -/
theorem LiesIn.reach (h : s.LiesIn text) (h' : s.Reaches t) : t.LiesIn text := by
  obtain ⟨before, htext, hoffset⟩ := h
  obtain ⟨past, hrest, hoffset', -⟩ := h'
  refine ⟨before ++ past, ?_, ?_⟩
  · rw [htext, hrest, List.append_assoc]
  · rw [Utf8.length_append, hoffset, hoffset']

/-- No more is left than the whole text. -/
theorem LiesIn.length_lt (h : s.LiesIn text) : s.rest.length < Steps.rounds text := by
  obtain ⟨before, htext, -⟩ := h
  rw [Steps.rounds, htext, List.length_append]
  omega

/-- Reading on twice is reading on at once. -/
theorem consume_consume (m n : Nat) (s : State) :
    (s.consume m).consume n = s.consume (m + n) := by
  simp only [consume, List.drop_drop, List.take_add, Utf8.length_append, Nat.add_assoc]

/-- A state stands in a text at a nesting and below procedures where its cursor is sound. -/
structure Stands (text : List Char) (d : Nat) (active : List Activation) (s : State) : Prop where
  /-- What is left is the rest of the text. -/
  lies : s.LiesIn text
  /-- The nesting is at most one level beyond the limit. -/
  depth_le : d ≤ maxNesting + 1
  /-- The procedures were called one inside the other. -/
  stacked : Stacked active

namespace Stands

/-- The cursor of such a state is sound. -/
theorem sound (h : s.Stands text d active) : (s.cursor d active).Sound text := by
  obtain ⟨before, htext, hoffset⟩ := h.lies
  exact ⟨⟨before, s.rest, htext, hoffset⟩, h.depth_le, h.stacked⟩

theorem consume (h : s.Stands text d active) (n : Nat) : (s.consume n).Stands text d active :=
  ⟨h.lies.consume n, h.depth_le, h.stacked⟩

theorem skipBlanks (h : s.Stands text d active) : s.skipBlanks.Stands text d active :=
  h.consume _

/-- One level further inside a state still stands in the text. -/
theorem deepen (h : s.Stands text d active) (hd : d ≤ maxNesting) :
    s.Stands text (d + 1) active :=
  ⟨h.lies, Nat.succ_le_succ hd, h.stacked⟩

theorem reach (h : s.Stands text d active) (h' : s.Reaches t) : t.Stands text d active :=
  ⟨h.lies.reach h', h.depth_le, h.stacked⟩

end Stands

end State

/-! ### Leading and refusing -/

section Leading

variable {β γ : Type} {text : List Char}

/-- From a cursor, steps lead to a result and to another cursor, by sound cursors only. -/
def Leads (text : List Char) (m : Steps β) (c : Cursor) (b : β) (c' : Cursor) : Prop :=
  ∀ trail : Trail, trail.now = c → trail.Sound text →
    ∃ trail', m.run trail = .ok b trail' ∧ trail'.now = c' ∧ trail'.Sound text

/-- From a cursor, steps refuse the text, after sound cursors only. -/
def Refuses (text : List Char) (m : Steps β) (c : Cursor) (err : ParseError) : Prop :=
  ∀ trail : Trail, trail.now = c → trail.Sound text →
    ∃ trail', m.run trail = .error (.refused err) trail' ∧ trail'.Sound text

/-- Steps from a cursor come to the result of a reader: they lead where it gets to, at a given
nesting and below given procedures, or refuse the text as it does. -/
def Agrees (text : List Char) (d : Nat) (active : List Activation) (m : Steps β) (c : Cursor) :
    Except ParseError (β × State) → Prop
  | .ok (b, t) => Leads text m c b (t.cursor d active)
  | .error err => Refuses text m c err

/-- What was done leads on to what follows. -/
theorem Leads.bind {m : Steps β} {f : β → Steps γ} {c c' c'' : Cursor} {b : β} {g : γ}
    (hm : Leads text m c b c') (hf : Leads text (f b) c' g c'') :
    Leads text (m >>= f) c g c'' := by
  intro trail hnow hsound
  obtain ⟨trail', hrun, hnow', hsound'⟩ := hm trail hnow hsound
  obtain ⟨trail'', hrun', hnow'', hsound''⟩ := hf trail' hnow' hsound'
  exact ⟨trail'', by rw [EStateM.run_bind, hrun]; exact hrun', hnow'', hsound''⟩

/-- What follows may refuse the text. -/
theorem Leads.refuses {m : Steps β} {f : β → Steps γ} {c c' : Cursor} {b : β} {err : ParseError}
    (hm : Leads text m c b c') (hf : Refuses text (f b) c' err) :
    Refuses text (m >>= f) c err := by
  intro trail hnow hsound
  obtain ⟨trail', hrun, hnow', hsound'⟩ := hm trail hnow hsound
  obtain ⟨trail'', hrun', hsound''⟩ := hf trail' hnow' hsound'
  exact ⟨trail'', by rw [EStateM.run_bind, hrun]; exact hrun', hsound''⟩

/-- Nothing follows on a refusal. -/
theorem Refuses.bind {m : Steps β} {f : β → Steps γ} {c : Cursor} {err : ParseError}
    (hm : Refuses text m c err) : Refuses text (m >>= f) c err := by
  intro trail hnow hsound
  obtain ⟨trail', hrun, hsound'⟩ := hm trail hnow hsound
  exact ⟨trail', by rw [EStateM.run_bind, hrun], hsound'⟩

/-- What was done leads on to what agrees with a reader. -/
theorem Leads.agrees {m : Steps β} {f : β → Steps γ} {c c' : Cursor} {b : β} {d : Nat}
    {active : List Activation} {result : Except ParseError (γ × State)}
    (hm : Leads text m c b c') (hf : Agrees text d active (f b) c' result) :
    Agrees text d active (m >>= f) c result := by
  cases result with
  | ok found => exact Leads.bind hm hf
  | error err => exact hm.refuses hf

theorem leads_pure (b : β) (c : Cursor) : Leads text (pure b) c b c :=
  fun trail hnow hsound => ⟨trail, rfl, hnow, hsound⟩

theorem leads_cursor (c : Cursor) : Leads text Steps.cursor c c c := by
  rintro trail rfl hsound
  exact ⟨trail, rfl, rfl, hsound⟩

/-- The cursor may go on where it is sound. -/
theorem leads_move {f : Cursor → Cursor} {c : Cursor} (h : (f c).Sound text) :
    Leads text (Steps.move f) c () (f c) := by
  rintro trail rfl hsound
  exact ⟨⟨f trail.now, trail.cursors⟩, rfl, rfl, List.forall_mem_cons.2 ⟨h, hsound⟩⟩

theorem refuses_refuseAt (position : Nat) (fault : ParseFault) (c : Cursor) :
    Refuses text (Steps.refuseAt position fault : Steps β) c ⟨fault, position⟩ :=
  fun trail _ hsound => ⟨trail, rfl, hsound⟩

/-- A refusal is noticed where the cursor stands. -/
theorem refuses_refuse (s : State) (fault : ParseFault) (d : Nat) (active : List Activation) :
    Refuses text (Steps.refuse fault : Steps β) (s.cursor d active) (s.fail fault) :=
  (leads_cursor _).refuses (refuses_refuseAt _ _ _)

/-- A text is cut between its parts. -/
theorem leads_cut {n : Nat} {cs before after : List Char} (hcs : cs = before ++ after)
    (hn : Utf8.length before = n) (c : Cursor) :
    Leads text (Steps.cut n cs) c (before, after) c := by
  rw [Steps.cut, Utf8.cut?_eq_some_iff.2 ⟨hcs, hn⟩]
  exact leads_pure _ _

end Leading

/-! ### Counters -/

section Counters

variable {text : List Char} {d : Nat} {active : List Activation} {s : State}

/-- One level further inside the cursor is still sound. -/
theorem leads_deepen (h : s.Stands text d active) (hd : d ≤ maxNesting) :
    Leads text (Steps.move fun c => { c with depth := c.depth + 1 }) (s.cursor d active) ()
      (s.cursor (d + 1) active) :=
  leads_move (h.deepen hd).sound

/-- A nested level is entered while there are more. -/
theorem leads_enter (h : s.Stands text d active) (hd : d < maxNesting) :
    Leads text Steps.enter (s.cursor d active) () (s.cursor (d + 1) active) := by
  refine (leads_deepen h (Nat.le_of_lt hd)).bind ((leads_cursor _).bind ?_)
  rw [if_neg (show ¬ maxNesting < (s.cursor (d + 1) active).depth from Nat.not_lt_of_le hd)]
  exact leads_pure _ _

/-- There is no level beyond the limit. -/
theorem refuses_enter (h : s.Stands text maxNesting active) :
    Refuses text Steps.enter (s.cursor maxNesting active) (s.fail .tooDeep) := by
  refine (leads_deepen h (Nat.le_refl _)).refuses ((leads_cursor _).refuses ?_)
  rw [if_pos (show maxNesting < (s.cursor (maxNesting + 1) active).depth from Nat.lt_succ_self _)]
  exact refuses_refuse s .tooDeep _ _

/-- A nested level that was entered is left. -/
theorem leads_leave (h : s.Stands text d active) :
    Leads text Steps.leave (s.cursor (d + 1) active) () (s.cursor d active) :=
  (leads_cursor _).bind (leads_move h.sound)

/-- An operator is counted while there may be more. -/
theorem leads_addOperator (h : s.Stands text d active) {t : State} (hadd : s.addOperator = .ok t) :
    Leads text Steps.addOperator (s.cursor d active) () (t.cursor d active) := by
  have ht := h.reach (State.reaches_of_addOperator hadd)
  simp only [State.addOperator] at hadd
  split at hadd
  · cases hadd
  · rename_i hlimit
    cases hadd
    refine (leads_move ht.sound).bind ((leads_cursor _).bind ?_)
    rw [if_neg (by simpa [State.cursor] using hlimit)]
    exact leads_pure _ _

/-- One operator beyond the limit is refused. -/
theorem refuses_addOperator (h : s.Stands text d active) {err : ParseError}
    (hadd : s.addOperator = .error err) :
    Refuses text Steps.addOperator (s.cursor d active) err := by
  simp only [State.addOperator] at hadd
  split at hadd
  · rename_i hlimit
    cases hadd
    refine (leads_move (c := s.cursor d active) ?_).refuses ((leads_cursor _).refuses ?_)
    · exact ⟨h.sound.cuts, h.sound.depth_le, h.sound.stacked⟩
    · rw [if_pos (by simpa [State.cursor, Nat.lt_succ_iff] using hlimit)]
      exact (leads_cursor _).refuses (refuses_refuseAt _ _ _)
  · cases hadd

end Counters

end TradeRules
