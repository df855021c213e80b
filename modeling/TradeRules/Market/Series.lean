import TradeRules.Market.Bar

/-!
# Series

The price history of one symbol, oldest bar first. Bars may arrive in any order and are then sorted
by their moments, those of one moment keeping their order; or they arrive newest first and are
turned round. `newest` keeps the latest bars only.
-/

namespace TradeRules

/-- The bars of one symbol, oldest first. -/
structure Series (α : Type) where
  /-- What is traded. -/
  symbol : String
  /-- The bars, oldest first. -/
  bars : List (Bar α)
  deriving Repr

namespace Series

variable {α : Type}

/-- Whether one bar may stand before another. -/
def inOrder (a b : Bar α) : Bool := a.time.notAfter b.time

/-- The series of bars in any order; the sort is stable. -/
def ofBars (symbol : String) (bars : List (Bar α)) : Series α :=
  ⟨symbol, bars.mergeSort inOrder⟩

/-- The series of bars that come newest first; their order is trusted. -/
def ofNewestFirst (symbol : String) (bars : List (Bar α)) : Series α := ⟨symbol, bars.reverse⟩

/-- The newest bar. -/
def latest? (s : Series α) : Option (Bar α) := s.bars.getLast?

/-- The closing prices, oldest first. -/
def closes (s : Series α) : List α := s.bars.map Bar.close

/-- The volumes, oldest first. -/
def volumes (s : Series α) : List α := s.bars.map Bar.volume

/-- The newest `limit` bars, or all where there are fewer. -/
def newest (limit : Nat) (s : Series α) : Series α :=
  { s with bars := s.bars.drop (s.bars.length - limit) }

/-- Sorting loses and adds no bar. -/
theorem ofBars_perm (symbol : String) (bars : List (Bar α)) :
    (ofBars symbol bars).bars.Perm bars := List.mergeSort_perm ..

/-- What may stand before a bar may stand before those that come after it. -/
theorem inOrder_trans (a b c : Bar α) (hab : inOrder a b = true) (hbc : inOrder b c = true) :
    inOrder a c = true := by
  simp only [inOrder, Moment.notAfter, decide_eq_true_eq] at *
  omega

/-- One of two bars may stand before the other. -/
theorem inOrder_total (a b : Bar α) : (inOrder a b || inOrder b a) = true := by
  simp only [inOrder, Moment.notAfter, Bool.or_eq_true, decide_eq_true_eq]
  omega

/-- A series that was sorted is in order. -/
theorem ofBars_pairwise (symbol : String) (bars : List (Bar α)) :
    (ofBars symbol bars).bars.Pairwise fun a b => inOrder a b = true :=
  List.pairwise_mergeSort inOrder_trans inOrder_total bars

/-- A window that holds all bars cuts nothing off. -/
theorem newest_of_le {limit : Nat} {s : Series α} (h : s.bars.length ≤ limit) :
    s.newest limit = s := by
  rw [newest, Nat.sub_eq_zero_of_le h, List.drop_zero]

/-- A window of a series has as many bars as it may hold, or as there are. -/
theorem length_newest (limit : Nat) (s : Series α) :
    (s.newest limit).bars.length = min limit s.bars.length := by
  rw [newest, List.length_drop]
  omega

/-- A window of a series ends it. -/
theorem isSuffix_newest (limit : Nat) (s : Series α) : (s.newest limit).bars <:+ s.bars :=
  List.drop_suffix _ _

/-- A shorter window of a window is a window of the whole. -/
theorem newest_newest (m n : Nat) (s : Series α) :
    newest m (newest n s) = newest (min m n) s := by
  simp only [newest, List.length_drop, List.drop_drop, Series.mk.injEq, true_and]
  congr 1
  omega

/-- A window that does not cut anything off keeps the latest bar. -/
theorem latest?_newest {limit : Nat} (h : 0 < limit) (s : Series α) :
    (newest limit s).latest? = s.latest? := by
  simp only [latest?, newest, List.getLast?_drop]
  split
  · have : s.bars = [] := List.eq_nil_of_length_eq_zero (by omega)
    simp [this]
  · rfl

end Series

end TradeRules
