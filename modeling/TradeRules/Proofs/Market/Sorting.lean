import Mathlib
import TradeRules.Market.Series

/-!
# Sorting bars

Bars are sorted stably if they are in order and those of each moment come in the order in which they
came before (`Series.StablySorted`). There is one way only to do that
(`Series.StablySorted.unique`), and it loses, adds and changes no bar; a series is made of its bars
in this way (`Series.stablySorted_ofBars`). Where no two bars are of one moment, their order before
does not matter, and where they come strictly newest first, turning them round does the same.
-/

namespace TradeRules.Series

variable {α : Type}

/-- Some bars are others sorted stably by their moments. -/
structure StablySorted (rows sorted : List (Bar α)) : Prop where
  /-- They are in order. -/
  ordered : sorted.Pairwise fun a b => inOrder a b = true
  /-- Those of each moment are the same as before, one by one. -/
  stable : ∀ t, sorted.filter (·.time = t) = rows.filter (·.time = t)

/-- Bars that may stand before each other are of one moment. -/
theorem time_eq_of_inOrder {a b : Bar α} (hab : inOrder a b = true) (hba : inOrder b a = true) :
    a.time = b.time := by
  simp only [inOrder, Moment.notAfter, decide_eq_true_eq] at hab hba
  exact Moment.rank_injective (le_antisymm hab hba)

/-- Bars of one moment may stand before each other. -/
theorem inOrder_of_time_eq {a b : Bar α} (h : a.time = b.time) : inOrder a b = true := by
  simp [inOrder, Moment.notAfter, h]

variable {rows sorted other : List (Bar α)}

/-- Sorting loses, adds and changes no bar. -/
theorem StablySorted.perm (h : StablySorted rows sorted) : sorted.Perm rows := by
  classical
  rw [List.perm_iff_count]
  intro b
  -- A bar stands among those of its own moment only.
  have hcount (bars : List (Bar α)) : (bars.filter (·.time = b.time)).count b = bars.count b :=
    List.count_filter (by simp)
  rw [← hcount sorted, h.stable, hcount]

/-- A bar stands where those of its moment are the same. -/
theorem mem_of_filter_eq {as bs : List (Bar α)}
    (h : ∀ t, as.filter (·.time = t) = bs.filter (·.time = t)) {a : Bar α} (ha : a ∈ as) :
    a ∈ bs := by
  have hown : a ∈ as.filter (·.time = a.time) := by simpa using ha
  rw [h] at hown
  exact List.mem_of_mem_filter hown

/-- A bar in front of others that are in order may stand before each of them, and before itself. -/
theorem inOrder_of_mem_cons {a b : Bar α} {as : List (Bar α)}
    (h : (a :: as).Pairwise fun a b => inOrder a b = true) (hb : b ∈ a :: as) :
    inOrder a b = true := by
  rcases List.mem_cons.1 hb with rfl | hb
  · exact inOrder_of_time_eq rfl
  · exact List.rel_of_pairwise_cons h hb

/-- Bars that are in order are determined by those of each moment. -/
theorem eq_of_filter_eq (hsorted : sorted.Pairwise fun a b => inOrder a b = true)
    (hother : other.Pairwise fun a b => inOrder a b = true)
    (h : ∀ t, sorted.filter (·.time = t) = other.filter (·.time = t)) : sorted = other := by
  induction sorted generalizing other with
  | nil =>
    cases other with
    | nil => rfl
    | cons b bs => cases mem_of_filter_eq (fun t => (h t).symm) (List.mem_cons_self (a := b))
  | cons a as ih =>
    cases other with
    | nil => cases mem_of_filter_eq h (List.mem_cons_self (a := a))
    | cons b bs =>
      -- Each of the first two bars stands in the other list, so that they are of one moment.
      have hab := inOrder_of_mem_cons hsorted
        (mem_of_filter_eq (fun t => (h t).symm) List.mem_cons_self)
      have hba := inOrder_of_mem_cons hother (mem_of_filter_eq h List.mem_cons_self)
      have htime := time_eq_of_inOrder hab hba
      have hfirst := h a.time
      simp only [List.filter_cons, htime, decide_true, if_true, List.cons.injEq] at hfirst
      obtain rfl := hfirst.1
      have hrest (t : Moment) : as.filter (·.time = t) = bs.filter (·.time = t) := by
        have ht := h t
        by_cases hat : a.time = t
        · simpa [List.filter_cons, hat] using ht
        · simpa [List.filter_cons, hat] using ht
      rw [ih hsorted.of_cons hother.of_cons hrest]

/-- There is one way to sort bars stably. -/
theorem StablySorted.unique (h : StablySorted rows sorted) (h' : StablySorted rows other) :
    sorted = other :=
  eq_of_filter_eq h.ordered h'.ordered fun t => (h.stable t).trans (h'.stable t).symm

/-- A series is made of its bars by sorting them stably. -/
theorem stablySorted_ofBars (symbol : String) (rows : List (Bar α)) :
    StablySorted rows (ofBars symbol rows).bars := by
  refine ⟨ofBars_pairwise symbol rows, fun t => ?_⟩
  have hperm := ofBars_perm symbol rows
  -- The bars of one moment are in order as they stand, and what is in order survives the sort.
  have hordered : (rows.filter (·.time = t)).Pairwise fun a b => inOrder a b = true := by
    refine List.pairwise_of_forall_mem_list fun a ha b hb => ?_
    simp only [List.mem_filter, decide_eq_true_eq] at ha hb
    exact inOrder_of_time_eq (ha.2.trans hb.2.symm)
  have hsub : (rows.filter (·.time = t)).Sublist (ofBars symbol rows).bars :=
    List.sublist_mergeSort inOrder_trans inOrder_total hordered List.filter_sublist
  have hfiltered := hsub.filter (·.time = t)
  simp only [List.filter_filter, Bool.and_self] at hfiltered
  exact (hfiltered.eq_of_length (hperm.filter _).length_eq.symm).symm

/-- The order of bars does not matter to a series if no two of them are of one moment. -/
theorem ofBars_eq_of_perm (symbol : String) (h : rows.Perm other)
    (hdistinct : (rows.map Bar.time).Nodup) : ofBars symbol rows = ofBars symbol other := by
  have hperm := ofBars_perm symbol rows
  have hperm' := ofBars_perm symbol other
  refine congrArg (Series.mk symbol) (List.Perm.eq_of_pairwise ?_ (ofBars_pairwise symbol rows)
    (ofBars_pairwise symbol other) (hperm.trans (h.trans hperm'.symm)))
  intro a b ha hb hab hba
  have ha' := hperm.mem_iff.1 ha
  have hb' := h.mem_iff.2 (hperm'.mem_iff.1 hb)
  exact List.inj_on_of_nodup_map hdistinct ha' hb' (time_eq_of_inOrder hab hba)

/-- Bars that come strictly newest first are turned round by sorting. -/
theorem ofNewestFirst_eq_ofBars (symbol : String)
    (h : rows.Pairwise fun a b => b.time.rank < a.time.rank) :
    ofNewestFirst symbol rows = ofBars symbol rows := by
  have hordered : rows.reverse.Pairwise fun a b => inOrder a b = true := by
    rw [List.pairwise_reverse]
    refine h.imp fun hlt => ?_
    simp only [inOrder, Moment.notAfter, decide_eq_true_eq]
    exact hlt.le
  have hdistinct : (rows.map Bar.time).Nodup := by
    rw [List.Nodup, List.pairwise_map]
    refine h.imp fun hlt htime => ?_
    rw [htime] at hlt
    exact lt_irrefl _ hlt
  rw [ofBars_eq_of_perm symbol (List.reverse_perm rows).symm hdistinct]
  exact congrArg (Series.mk symbol) (List.mergeSort_of_pairwise hordered).symm

end TradeRules.Series
