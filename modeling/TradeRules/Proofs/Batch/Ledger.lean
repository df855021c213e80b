import TradeRules.Proofs.Batch.Accounting
import TradeRules.Proofs.Rule.Firing

/-!
# Questions for cash

A batch asks an account when a rule sized by percentage fires and its user was not asked before.
Nothing else that happens in between depends on the answers, so a batch could as well ask first: each
user with such a rule once, in the order of those rules (`Batch.judgeAnswers_eq`). Where accounts
answer a user always alike, the ledger makes no difference to asking afresh for every rule.
-/

namespace TradeRules

variable {α : Type}

namespace Ledger

/-- The cash to size a rule with, given the answer of its user's account. -/
def funds : Except String α → Except (SizingError α) (Option α)
  | .ok cash => .ok (some cash)
  | .error reason => .error (.cashUnavailable reason)

/-- The cash to size a rule with, given the answers of the accounts, of which that of the rule's
user is not missing where it matters. -/
def fundsOf (answers : String → Option (Except String α)) (rule : Rule) :
    Except (SizingError α) (Option α) :=
  match rule.sizing with
  | .percentage => (answers rule.user).elim (.ok none) funds
  | .fixed | .expression => .ok none

/-- The answers in a ledger. -/
def answers (ledger : Ledger α) (user : String) : Option (Except String α) := ledger.lookup user

variable {m : Type → Type} [Monad m]

/-- Asks a user's account and notes the answer. -/
def ask (accounts : String → m (Except String α)) (user : String) :
    m (String × Except String α) := Prod.mk user <$> accounts user

/-- The cash to size a rule with, its user's account being asked in any case. -/
def cashAfresh (accounts : String → m (Except String α)) (rule : Rule) :
    m (Except (SizingError α) (Option α)) :=
  match rule.sizing with
  | .percentage => funds <$> accounts rule.user
  | .fixed | .expression => pure (.ok none)

/-- A rule that is not sized by percentage needs no answer. -/
theorem fundsOf_of_ne {rule : Rule} (h : rule.sizing ≠ .percentage)
    (answers : String → Option (Except String α)) : fundsOf answers rule = .ok none := by
  unfold fundsOf
  cases hs : rule.sizing with
  | percentage => exact absurd hs h
  | fixed | expression => rfl

/-- A rule that is not sized by percentage asks for nothing. -/
theorem cashFor_of_ne (accounts : String → m (Except String α)) {rule : Rule}
    (h : rule.sizing ≠ .percentage) (ledger : Ledger α) :
    (cashFor accounts rule).run ledger = pure (.ok none, ledger) := by
  unfold cashFor
  cases hs : rule.sizing with
  | percentage => exact absurd hs h
  | fixed | expression => rfl

variable [LawfulMonad m]

/-- A user who is in the ledger is not asked again. -/
theorem cashFor_of_lookup (accounts : String → m (Except String α)) {rule : Rule}
    (h : rule.sizing = .percentage) {ledger : Ledger α} {answer : Except String α}
    (hknown : ledger.lookup rule.user = some answer) :
    (cashFor accounts rule).run ledger = pure (funds answer, ledger) := by
  have hbalance : (balance accounts rule.user).run ledger = pure (answer, ledger) := by
    simp only [StateT.run, balance, hknown]
  simp only [cashFor, h]
  rw [StateT.run_bind, hbalance, pure_bind]
  cases answer <;> rfl

/-- A user who is not in the ledger is asked and put there. -/
theorem cashFor_of_new (accounts : String → m (Except String α)) {rule : Rule}
    (h : rule.sizing = .percentage) {ledger : Ledger α} (hnew : ledger.lookup rule.user = none) :
    (cashFor accounts rule).run ledger =
      (fun answer => (funds answer, (rule.user, answer) :: ledger)) <$> accounts rule.user := by
  have hbalance : (balance accounts rule.user).run ledger =
      (fun answer => (answer, (rule.user, answer) :: ledger)) <$> accounts rule.user := by
    simp only [StateT.run, balance, hnew, bind_pure_comp]
  simp only [cashFor, h]
  rw [StateT.run_bind, hbalance, bind_map_left, ← bind_pure_comp]
  refine bind_congr fun answer => ?_
  cases answer <;> rfl

/-- Who is not in a ledger has no answer there. -/
theorem lookup_eq_none_iff {ledger : Ledger α} {user : String} :
    ledger.lookup user = none ↔ user ∉ ledger.map Prod.fst := by
  rw [List.lookup_eq_none_iff, List.mem_map]
  constructor
  · rintro h ⟨call, hcall, rfl⟩
    simpa using h call hcall
  · intro h call hcall
    exact bne_iff_ne.2 fun huser => h ⟨call, hcall, huser.symm⟩

/-- The answer of someone new is found in a ledger, whichever end it was put at. -/
theorem lookup_cons_eq_append {ledger known : Ledger α}
    (h : ∀ user, ledger.lookup user = known.lookup user) {user : String}
    (hnew : known.lookup user = none) (answer : Except String α) (other : String) :
    List.lookup other ((user, answer) :: ledger) =
      List.lookup other (known ++ [(user, answer)]) := by
  rw [List.lookup_append, List.lookup_cons, h other]
  by_cases hother : other = user
  · subst hother
    rw [hnew]
    simp
  · have hne : (other == user) = false := beq_false_of_ne hother
    simp [List.lookup_cons, hne]

end Ledger

namespace Batch

variable [Scalar α]

/-- A rule comes to be sized where its history is at hand and it fires on it. -/
def Fires (c : Rule × Except SourceError (Series α)) : Prop := ∃ s, c.2 = .ok s ∧ c.1.FiresOn s

instance : DecidablePred (Fires (α := α)) := fun c =>
  match h : c.2 with
  | .ok s => decidable_of_iff (c.1.FiresOn s) <| by simp [Fires, h]
  | .error e => isFalse <| by simp [Fires, h]

/-- A rule comes to the question for cash where it is to be sized by percentage. -/
def Pays (c : Rule × Except SourceError (Series α)) : Prop := c.1.sizing = .percentage ∧ Fires c

instance : DecidablePred (Pays (α := α)) := fun _ => inferInstanceAs (Decidable (_ ∧ _))

/-- The users whose accounts are asked, each at the first rule that needs it. -/
def payers (cases : List (Rule × Except SourceError (Series α))) : List String :=
  ((cases.filter fun c => Pays c).map fun c => c.1.user).eraseDups

/-- The users who are still to be asked when some have been. -/
def newPayers (known : List String) (cases : List (Rule × Except SourceError (Series α))) :
    List String :=
  (((cases.filter fun c => Pays c).map fun c => c.1.user).filter fun user => user ∉ known).eraseDups

/-- The verdict on a rule, given the answer to the question for cash. -/
def verdict (cash : Except (SizingError α) (Option α))
    (c : Rule × Except SourceError (Series α)) : Verdict α := Id.run (judge (pure cash) c.1 c.2)

/-- A rule with its verdict, given the answers of the accounts. -/
def entryOn (answers : String → Option (Except String α))
    (c : Rule × Except SourceError (Series α)) : Entry α :=
  ⟨c.1, verdict (Ledger.fundsOf answers c.1) c⟩

/-- The answer of an account does not matter to a rule that does not come to be sized. -/
theorem verdict_of_not_fires {c : Rule × Except SourceError (Series α)} (h : ¬Fires c)
    (cash cash' : Except (SizingError α) (Option α)) : verdict cash c = verdict cash' c := by
  obtain ⟨rule, history⟩ := c
  cases history with
  | error e => rfl
  | ok s =>
    have hs : ¬rule.FiresOn s := fun hs => h ⟨s, rfl, hs⟩
    have hsame := Rule.evaluate_of_not_firesOn hs (m := Id) (pure cash) cash'
    simp only [verdict, judge, bind_pure_comp, Id.run_map]
    rw [hsame]
    rfl

/-- A rule that comes to be sized fails with the reason why there is no cash for it. -/
theorem verdict_of_error {c : Rule × Except SourceError (Series α)} (h : Fires c)
    (e : SizingError α) : verdict (.error e) c = .error (.rule (.sizing e)) := by
  obtain ⟨rule, history⟩ := c
  obtain ⟨s, hhistory, hs⟩ := h
  obtain ⟨context, hfiring⟩ := Rule.firesOn_iff.1 hs
  simp only at hhistory
  subst hhistory
  simp only [verdict, judge, Rule.evaluate, hfiring]
  rfl

variable {m : Type → Type} [Monad m] [LawfulMonad m]

/-- A rule that comes to be sized asks once, and its verdict is the one for the answer. -/
theorem entry_of_fires {cash : Rule → m (Except (SizingError α) (Option α))}
    {c : Rule × Except SourceError (Series α)} (h : Fires c) :
    entry cash c = (fun answer => ⟨c.1, verdict answer c⟩) <$> cash c.1 := by
  obtain ⟨rule, history⟩ := c
  obtain ⟨s, hhistory, hs⟩ := h
  simp only at hhistory
  subst hhistory
  simp only [entry, judge, verdict, bind_pure_comp, Rule.evaluate_of_firesOn hs (cash rule),
    Functor.map_map, Id.run_map]

/-- A rule that does not come to be sized asks for nothing. -/
theorem entry_of_not_fires {cash : Rule → m (Except (SizingError α) (Option α))}
    {c : Rule × Except SourceError (Series α)} (h : ¬Fires c)
    (answer : Except (SizingError α) (Option α)) :
    entry cash c = pure ⟨c.1, verdict answer c⟩ := by
  obtain ⟨rule, history⟩ := c
  cases history with
  | error e => simp [entry, judge, verdict]
  | ok s =>
    have hs : ¬rule.FiresOn s := fun hs => h ⟨s, rfl, hs⟩
    simp only [entry, judge, verdict, bind_pure_comp, map_pure,
      Rule.evaluate_of_not_firesOn hs (cash rule) answer, Id.run_map]

/-- A rule that does not come to the question for cash leaves the ledger alone. -/
theorem entry_of_not_pays (accounts : String → m (Except String α))
    {c : Rule × Except SourceError (Series α)} (h : ¬Pays c) (ledger : Ledger α)
    (answers : String → Option (Except String α)) :
    (entry (Ledger.cashFor accounts) c).run ledger = pure (entryOn answers c, ledger) := by
  by_cases hfires : Fires c
  · have hsizing : c.1.sizing ≠ .percentage := fun hs => h ⟨hs, hfires⟩
    rw [entry_of_fires hfires, StateT.run_map, Ledger.cashFor_of_ne accounts hsizing, map_pure,
      entryOn, Ledger.fundsOf_of_ne hsizing]
  · rw [entry_of_not_fires hfires (Ledger.fundsOf answers c.1)]
    rfl

/-- A rule of a user who is in the ledger is sized with that answer. -/
theorem entry_of_lookup (accounts : String → m (Except String α))
    {c : Rule × Except SourceError (Series α)} (h : Pays c) {ledger : Ledger α}
    {answer : Except String α} (hknown : ledger.lookup c.1.user = some answer) :
    (entry (Ledger.cashFor accounts) c).run ledger =
      pure (⟨c.1, verdict (Ledger.funds answer) c⟩, ledger) := by
  rw [entry_of_fires h.2, StateT.run_map, Ledger.cashFor_of_lookup accounts h.1 hknown, map_pure]

/-- A rule of a user who is not in the ledger is sized with the answer that is put there. -/
theorem entry_of_new (accounts : String → m (Except String α))
    {c : Rule × Except SourceError (Series α)} (h : Pays c) {ledger : Ledger α}
    (hnew : ledger.lookup c.1.user = none) :
    (entry (Ledger.cashFor accounts) c).run ledger =
      (fun answer => (⟨c.1, verdict (Ledger.funds answer) c⟩, (c.1.user, answer) :: ledger)) <$>
        accounts c.1.user := by
  rw [entry_of_fires h.2, StateT.run_map, Ledger.cashFor_of_new accounts h.1 hnew, Functor.map_map]

/-- A rule sized by percentage is judged on the answer of its user's account. -/
theorem entryOn_of_eq_some {c : Rule × Except SourceError (Series α)}
    (h : c.1.sizing = .percentage) {answers : String → Option (Except String α)}
    {answer : Except String α} (hknown : answers c.1.user = some answer) :
    entryOn answers c = ⟨c.1, verdict (Ledger.funds answer) c⟩ := by
  simp only [entryOn, Ledger.fundsOf, h, hknown, Option.elim_some]

/-- The answers do not matter to a rule that does not come to the question for cash. -/
theorem entryOn_of_not_pays {c : Rule × Except SourceError (Series α)} (h : ¬Pays c)
    (answers answers' : String → Option (Except String α)) :
    entryOn answers c = entryOn answers' c := by
  by_cases hfires : Fires c
  · have hsizing : c.1.sizing ≠ .percentage := fun hs => h ⟨hs, hfires⟩
    rw [entryOn, entryOn, Ledger.fundsOf_of_ne hsizing, Ledger.fundsOf_of_ne hsizing]
  · rw [entryOn, entryOn, verdict_of_not_fires hfires]

/-- Where nobody was asked, everybody is still to be asked. -/
theorem newPayers_nil (cases : List (Rule × Except SourceError (Series α))) :
    newPayers [] cases = payers cases := by
  simp [newPayers, payers]

/-- A rule that does not come to the question adds nobody. -/
theorem newPayers_of_not_pays (known : List String) {c : Rule × Except SourceError (Series α)}
    (h : ¬Pays c) (cases : List (Rule × Except SourceError (Series α))) :
    newPayers known (c :: cases) = newPayers known cases := by
  rw [newPayers, List.filter_cons_of_neg (by simpa using h)]
  rfl

/-- A rule of a user who was asked adds nobody. -/
theorem newPayers_of_mem {known : List String} {c : Rule × Except SourceError (Series α)}
    (h : Pays c) (hknown : c.1.user ∈ known)
    (cases : List (Rule × Except SourceError (Series α))) :
    newPayers known (c :: cases) = newPayers known cases := by
  rw [newPayers, List.filter_cons_of_pos (by simpa using h), List.map_cons,
    List.filter_cons_of_neg (by simpa using hknown)]
  rfl

/-- A rule of someone new puts that user first. -/
theorem newPayers_of_notMem {known : List String} {c : Rule × Except SourceError (Series α)}
    (h : Pays c) (hnew : c.1.user ∉ known)
    (cases : List (Rule × Except SourceError (Series α))) :
    newPayers known (c :: cases) = c.1.user :: newPayers (known ++ [c.1.user]) cases := by
  have hothers (user : String) : decide (user ∉ known ++ [c.1.user]) =
      ((!user == c.1.user) && decide (user ∉ known)) := by
    by_cases hmem : user ∈ known <;> by_cases huser : user = c.1.user <;> simp [hmem, huser]
  rw [newPayers, List.filter_cons_of_pos (by simpa using h), List.map_cons,
    List.filter_cons_of_pos (by simpa using hnew), List.eraseDups_cons, List.filter_filter]
  simp only [newPayers, hothers]

/-- What a traversal with a state returns: the result of the first step, and then those of the
others from the state that it left. -/
theorem fst_mapM_cons_run {σ β γ : Type} (f : β → StateT σ m γ) (x : β) (xs : List β) (s : σ) :
    Prod.fst <$> ((x :: xs).mapM f).run s =
      (f x).run s >>= fun p => (p.1 :: ·) <$> Prod.fst <$> (xs.mapM f).run p.2 := by
  rw [List.mapM_cons]
  simp [StateT.run_bind]

/-- Judging with a ledger is asking first whoever is still to be asked, in the order in which their
rules come, and then judging on the answers. -/
theorem mapM_entry_eq (accounts : String → m (Except String α))
    (cases : List (Rule × Except SourceError (Series α))) {ledger known : Ledger α}
    (h : ∀ user, ledger.lookup user = known.lookup user) :
    Prod.fst <$> (cases.mapM (entry (Ledger.cashFor accounts))).run ledger =
      (fun fresh => cases.map (entryOn (Ledger.answers (known ++ fresh)))) <$>
        (newPayers (known.map Prod.fst) cases).mapM (Ledger.ask accounts) := by
  induction cases generalizing ledger known with
  | nil => simp [newPayers]
  | cons c cases ih =>
    rw [fst_mapM_cons_run]
    by_cases hpays : Pays c
    · cases hknown : known.lookup c.1.user with
      | some answer =>
        have hmem : c.1.user ∈ known.map Prod.fst := by
          by_contra hmem
          rw [Ledger.lookup_eq_none_iff.2 hmem] at hknown
          cases hknown
        have hentry (fresh : Ledger α) : entryOn (Ledger.answers (known ++ fresh)) c =
            ⟨c.1, verdict (Ledger.funds answer) c⟩ := by
          refine entryOn_of_eq_some hpays.1 ?_
          rw [Ledger.answers, List.lookup_append, hknown, Option.some_or]
        rw [entry_of_lookup accounts hpays ((h _).trans hknown), pure_bind, ih h,
          newPayers_of_mem hpays hmem, Functor.map_map]
        simp only [List.map_cons, hentry]
      | none =>
        have hentry (answer : Except String α) (fresh : Ledger α) :
            entryOn (Ledger.answers (known ++ (c.1.user, answer) :: fresh)) c =
              ⟨c.1, verdict (Ledger.funds answer) c⟩ := by
          refine entryOn_of_eq_some hpays.1 ?_
          rw [Ledger.answers, List.lookup_append, hknown, List.lookup_cons, beq_self_eq_true]
          rfl
        have hrest (answer : Except String α) :=
          ih (Ledger.lookup_cons_eq_append h hknown answer)
        simp only [List.map_append, List.map_cons, List.map_nil] at hrest
        rw [entry_of_new accounts hpays ((h _).trans hknown), bind_map_left,
          newPayers_of_notMem hpays (Ledger.lookup_eq_none_iff.1 hknown), List.mapM_cons]
        simp only [hrest, Ledger.ask, bind_map_left, map_bind, Functor.map_map, bind_pure_comp,
          List.map_cons, hentry, List.append_assoc, List.singleton_append]
    · have hentry (fresh : Ledger α) : entryOn (Ledger.answers (known ++ fresh)) c =
          entryOn (Ledger.answers known) c := entryOn_of_not_pays hpays _ _
      rw [entry_of_not_pays accounts hpays ledger (Ledger.answers known), pure_bind, ih h,
        newPayers_of_not_pays _ hpays, Functor.map_map]
      simp only [List.map_cons, hentry]

/-- A user who is to pay has a rule that needs it, and the other way round. -/
theorem mem_payers {cases : List (Rule × Except SourceError (Series α))} {user : String} :
    user ∈ payers cases ↔ ∃ c ∈ cases, Pays c ∧ c.1.user = user := by
  simp only [payers, List.mem_eraseDups, List.mem_map, List.mem_filter, decide_eq_true_eq,
    and_assoc]

/-- Answers that agree for everyone who is to pay come to the same entries. -/
theorem entryOn_congr {cases : List (Rule × Except SourceError (Series α))}
    {answers answers' : String → Option (Except String α)}
    (h : ∀ user ∈ payers cases, answers user = answers' user)
    {c : Rule × Except SourceError (Series α)} (hc : c ∈ cases) :
    entryOn answers c = entryOn answers' c := by
  by_cases hpays : Pays c
  · have huser := h c.1.user (mem_payers.2 ⟨c, hc, hpays, rfl⟩)
    simp only [entryOn, Ledger.fundsOf, hpays.1, huser]
  · exact entryOn_of_not_pays hpays answers answers'

/-- The outcome of a batch, given the answers of the accounts. -/
def outcomeOn (answers : String → Option (Except String α))
    (cases : List (Rule × Except SourceError (Series α))) : Outcome α :=
  Outcome.empty.recordAll (cases.map (entryOn answers))

/-- The entries of a batch are those of its rules, one after another. -/
theorem entries_outcomeOn (answers : String → Option (Except String α))
    (cases : List (Rule × Except SourceError (Series α))) :
    (outcomeOn answers cases).entries = cases.map (entryOn answers) :=
  Outcome.entries_recordAll Outcome.empty _

/-- Answers that agree for everyone who is to pay come to the same outcome. -/
theorem outcomeOn_congr {cases : List (Rule × Except SourceError (Series α))}
    {answers answers' : String → Option (Except String α)}
    (h : ∀ user ∈ payers cases, answers user = answers' user) :
    outcomeOn answers cases = outcomeOn answers' cases :=
  congrArg Outcome.empty.recordAll (List.map_congr_left fun _ hc => entryOn_congr h hc)

/-- Judging a batch is asking the accounts of the users who are to pay, in the order of their rules
and each once, and then judging on the answers. -/
theorem judgeAnswers_eq (accounts : String → m (Except String α)) (rules : List Rule)
    (histories : List (Except SourceError (Series α))) :
    judgeAnswers accounts rules histories =
      (fun calls => outcomeOn (Ledger.answers calls) (cases (groups rules) histories)) <$>
        (payers (cases (groups rules) histories)).mapM (Ledger.ask accounts) := by
  have hnobody : ∀ user, List.lookup user ([] : Ledger α) = List.lookup user ([] : Ledger α) :=
    fun _ => rfl
  have h := mapM_entry_eq accounts (cases (groups rules) histories) hnobody
  rw [List.map_nil, newPayers_nil] at h
  calc judgeAnswers accounts rules histories
      = Outcome.empty.recordAll <$> Prod.fst <$>
          ((cases (groups rules) histories).mapM (entry (Ledger.cashFor accounts))).run [] := by
        rw [judgeAnswers, judgeAll_eq, StateT.run_map, bind_pure_comp, Functor.map_map,
          Functor.map_map]
    _ = _ := by
        rw [h, Functor.map_map]
        rfl

end Batch

end TradeRules
