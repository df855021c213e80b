import Mathlib
import TradeRules.Files.Prices

/-!
# Rows of prices

A row of a price file holds a bar if its cells can be had and a moment and five numbers stand in its
columns (`Prices.RowHolds`). Otherwise something is wrong with the row as such or with a column, and
the leftmost such column counts (`Prices.rowFault?`). The rows of a table are read as the bars that
they hold (`Prices.barsOfRows_eq_ok_iff`), or else the first of them that holds none decides what is
reported (`Prices.fault?_barsOfRows`).
-/

namespace TradeRules

open Text Number

/-- A column of a price file. -/
inductive PriceColumn where
  /-- The moment. -/
  | time
  /-- One of the numbers. -/
  | number (field : BarField)
  deriving DecidableEq, Repr

namespace PriceColumn

/-- The columns from the left. -/
def all : List PriceColumn := .time :: BarField.all.map .number

/-- The number of columns to the left of one. -/
def index : PriceColumn → Nat
  | .time => 0
  | .number .opening => 1
  | .number .high => 2
  | .number .low => 3
  | .number .close => 4
  | .number .volume => 5

/-- The name of a column. -/
def name : PriceColumn → String
  | .time => "datetime"
  | .number field => field.name

/-- There are no other columns. -/
theorem mem_all (c : PriceColumn) : c ∈ all := by
  cases c with
  | time => decide
  | number field => cases field <;> decide

/-- The columns before one are those with smaller indices. -/
theorem mem_left_iff {left right : List PriceColumn} {c d : PriceColumn}
    (h : all = left ++ c :: right) : d ∈ left ↔ d.index < c.index := by
  have hsorted : all.Pairwise fun a b => a.index < b.index := by decide
  rw [h, List.pairwise_append, List.pairwise_cons] at hsorted
  obtain ⟨-, ⟨hright, -⟩, hleft⟩ := hsorted
  constructor
  · intro hd
    exact hleft d hd c List.mem_cons_self
  · intro hlt
    have hd := d.mem_all
    rw [h, List.mem_append, List.mem_cons] at hd
    rcases hd with hd | rfl | hd
    · exact hd
    · exact absurd hlt (Nat.lt_irrefl _)
    · exact absurd (hright d hd) (Nat.lt_asymm hlt)

end PriceColumn

namespace Prices

/-- A number stands in its column of a row. -/
def HasNumber (cells : List String) (field : BarField) (x : Float) : Prop :=
  ∃ text n, cells[(PriceColumn.number field).index]? = some text ∧
    readNumeral text.toList = .ok n ∧ n.toFloat = x

/-- The cells of a row hold a bar. -/
structure CellsHold (cells : List String) (b : Bar Float) : Prop where
  /-- Its moment stands in the first column. -/
  time : ∃ text, cells[PriceColumn.time.index]? = some text ∧ Moment.read? text.toList = some b.time
  /-- Its numbers stand in theirs. -/
  number : ∀ field, HasNumber cells field (b.get field)

/-- A row of a table holds a bar. -/
def RowHolds (t : Table) (r : Row) (b : Bar Float) : Prop :=
  ∃ cells, t.cells r = .ok cells ∧ CellsHold cells b

/-- What is wrong in a column of a row, if anything is. -/
def columnFault? (line : Nat) (cells : List String) (column : PriceColumn) : Option PriceFault :=
  match cells[column.index]? with
  | none => some (.missingColumn line column.name)
  | some text =>
    match column with
    | .time =>
      match Moment.read? text.toList with
      | none => some (.invalidMoment line text)
      | some _ => none
    | .number field =>
      match readNumeral text.toList with
      | .error fault => some (.invalidNumber line field.name text fault)
      | .ok _ => none

/-- What is wrong with a row, if anything is: the row as such, or else its leftmost column with
something wrong in it. -/
def rowFault? (t : Table) (r : Row) : Option PriceFault :=
  match t.cells r with
  | .error fault => some (.row r fault)
  | .ok cells => PriceColumn.all.findSome? (columnFault? (r.number + 1) cells)

/-- Why a row holds no bar: it is wrong as such, or a column is and none to the left of it. -/
inductive Offends (t : Table) (r : Row) : PriceFault → Prop where
  /-- The row is wrong as such. -/
  | row {fault} (h : t.cells r = .error fault) : Offends t r (.row r fault)
  /-- Something is wrong in a column. -/
  | column {cells c e} (hcells : t.cells r = .ok cells)
    (h : columnFault? (r.number + 1) cells c = some e)
    (hleft : ∀ d : PriceColumn, d.index < c.index → columnFault? (r.number + 1) cells d = none) :
    Offends t r e

section Faults

variable {α β : Type}

/-- The fault that a reading ends with, if it does. -/
def fault? : Except PriceFault α → Option PriceFault
  | .error e => some e
  | .ok _ => none

theorem fault?_eq_some_iff {x : Except PriceFault α} {e : PriceFault} :
    fault? x = some e ↔ x = .error e := by
  cases x <;> simp [fault?]

theorem fault?_eq_none_iff {x : Except PriceFault α} : fault? x = none ↔ ∃ a, x = .ok a := by
  cases x <;> simp [fault?]

/-- The fault of one reading after another is that of the first, or else that of the second, as long
as this does not depend on what was read. -/
theorem fault?_bind {x : Except PriceFault α} {f : α → Except PriceFault β}
    {later : Option PriceFault} (h : ∀ a, fault? (f a) = later) :
    fault? (x >>= f) = (fault? x).or later := by
  cases x with
  | error e => rfl
  | ok a => exact h a

/-- What is found first in a list is found at its head, or else in the rest. -/
theorem findSome?_cons_eq_or (f : α → Option β) (a : α) (rest : List α) :
    (a :: rest).findSome? f = (f a).or (rest.findSome? f) := by
  rw [List.findSome?_cons]
  cases f a <;> rfl

/-- A reading after another gives what the second gives for what the first gave. -/
theorem bind_eq_ok_iff {x : Except PriceFault α} {f : α → Except PriceFault β} {b : β} :
    x >>= f = .ok b ↔ ∃ a, x = .ok a ∧ f a = .ok b := by
  cases x with
  | error e => exact iff_of_false (fun h => nomatch h) (fun ⟨_, h, _⟩ => nomatch h)
  | ok a =>
    constructor
    · intro h
      exact ⟨a, rfl, h⟩
    · rintro ⟨_, ha, h⟩
      cases ha
      exact h

end Faults

variable {line : Nat} {cells : List String} {t : Table} {rows : List Row}

/-- A number is read where it stands. -/
theorem number_eq_ok_iff {field : BarField} {x : Float} :
    number line cells (PriceColumn.number field).index field = .ok x ↔ HasNumber cells field x := by
  unfold number HasNumber
  cases cells[(PriceColumn.number field).index]? with
  | none => simp
  | some text => cases h : readNumeral text.toList <;> simp [h]

/-- The fault of reading a number is what is wrong in its column. -/
theorem fault?_number (line : Nat) (cells : List String) (field : BarField) :
    fault? (number line cells (PriceColumn.number field).index field) =
      columnFault? line cells (.number field) := by
  unfold number columnFault?
  cases cells[(PriceColumn.number field).index]? with
  | none => rfl
  | some text =>
    dsimp only
    cases readNumeral text.toList <;> rfl

/-- Without a first cell there is no bar. -/
theorem bar_nil (line : Nat) : bar line [] = .error (.missingColumn line "datetime") := rfl

/-- A first cell without a moment gives no bar. -/
theorem bar_cons_of_none {first : String} (rest : List String)
    (h : Moment.read? first.toList = none) :
    bar line (first :: rest) = .error (.invalidMoment line first) := by
  simp only [bar, h]

/-- After a moment, a bar is its numbers. -/
theorem bar_cons_of_some {first : String} (rest : List String) {time : Moment}
    (h : Moment.read? first.toList = some time) :
    bar line (first :: rest) = do
      let opening ← number line (first :: rest) (PriceColumn.number .opening).index .opening
      let high ← number line (first :: rest) (PriceColumn.number .high).index .high
      let low ← number line (first :: rest) (PriceColumn.number .low).index .low
      let close ← number line (first :: rest) (PriceColumn.number .close).index .close
      let volume ← number line (first :: rest) (PriceColumn.number .volume).index .volume
      return { time, opening, high, low, close, volume } := by
  simp only [bar, h]
  rfl

/-- A bar is read where the cells hold it. -/
theorem bar_eq_ok_iff {b : Bar Float} : bar line cells = .ok b ↔ CellsHold cells b := by
  cases cells with
  | nil =>
    rw [bar_nil]
    exact iff_of_false nofun fun h => by simpa using h.time
  | cons first rest =>
    cases htime : Moment.read? first.toList with
    | none =>
      rw [bar_cons_of_none rest htime]
      refine iff_of_false nofun fun h => ?_
      obtain ⟨text, hcell, hread⟩ := h.time
      cases hcell
      rw [htime] at hread
      cases hread
    | some time =>
      rw [bar_cons_of_some rest htime]
      simp only [bind_eq_ok_iff, number_eq_ok_iff]
      constructor
      · rintro ⟨opening, hopening, high, hhigh, low, hlow, close, hclose, volume, hvolume, h⟩
        cases h
        refine ⟨⟨first, rfl, htime⟩, fun field => ?_⟩
        cases field <;> assumption
      · intro h
        obtain ⟨text, hcell, hread⟩ := h.time
        cases hcell
        rw [htime] at hread
        cases hread
        exact ⟨_, h.number .opening, _, h.number .high, _, h.number .low, _, h.number .close, _,
          h.number .volume, rfl⟩

/-- The fault of reading a bar is what is wrong in the leftmost column where anything is. -/
theorem fault?_bar (line : Nat) (cells : List String) :
    fault? (bar line cells) = PriceColumn.all.findSome? (columnFault? line cells) := by
  cases cells with
  | nil => rfl
  | cons first rest =>
    cases htime : Moment.read? first.toList with
    | none =>
      have hfirst : columnFault? line (first :: rest) .time = some (.invalidMoment line first) := by
        simp [columnFault?, PriceColumn.index, htime]
      rw [bar_cons_of_none rest htime, PriceColumn.all, List.findSome?_cons, hfirst]
      rfl
    | some time =>
      have hfirst : columnFault? line (first :: rest) .time = none := by
        simp [columnFault?, PriceColumn.index, htime]
      simp only [bar_cons_of_some rest htime, PriceColumn.all, BarField.all, List.map_cons,
        List.map_nil, findSome?_cons_eq_or, List.findSome?_nil, hfirst, Option.none_or,
        ← fault?_number]
      -- What is read from a column has no part in what is wrong in those to its right.
      exact fault?_bind fun _ => fault?_bind fun _ => fault?_bind fun _ => fault?_bind fun _ =>
        fault?_bind fun _ => rfl

/-- The bar in a row of a table. -/
def barOfRow (t : Table) (r : Row) : Except PriceFault (Bar Float) :=
  match t.cells r with
  | .error fault => .error (.row r fault)
  | .ok cells => bar (r.number + 1) cells

/-- The bar of a row is the one that the row holds. -/
theorem barOfRow_eq_ok_iff {r : Row} {b : Bar Float} :
    barOfRow t r = .ok b ↔ RowHolds t r b := by
  unfold barOfRow RowHolds
  cases t.cells r with
  | error fault => simp
  | ok cells => simp [bar_eq_ok_iff]

/-- The fault of reading a row is what is wrong with it. -/
theorem fault?_barOfRow (t : Table) (r : Row) : fault? (barOfRow t r) = rowFault? t r := by
  unfold barOfRow rowFault?
  cases t.cells r with
  | error fault => rfl
  | ok cells => exact fault?_bar (r.number + 1) cells

/-- Nothing is wrong with the rows that hold bars, and only with these. -/
theorem rowFault?_eq_none_iff {r : Row} : rowFault? t r = none ↔ ∃ b, RowHolds t r b := by
  simp only [← fault?_barOfRow, fault?_eq_none_iff, barOfRow_eq_ok_iff]

/-- What is wrong with a row is why it holds no bar. -/
theorem rowFault?_eq_some_iff {r : Row} {e : PriceFault} :
    rowFault? t r = some e ↔ Offends t r e := by
  unfold rowFault?
  constructor
  · intro h
    cases hcells : t.cells r with
    | error fault =>
      rw [hcells] at h
      cases h
      exact .row hcells
    | ok cells =>
      rw [hcells] at h
      obtain ⟨left, c, right, hall, hc, hleft⟩ := List.findSome?_eq_some_iff.1 h
      exact .column hcells hc fun d hd => hleft d ((PriceColumn.mem_left_iff hall).2 hd)
  · intro h
    cases h with
    | row h => rw [h]
    | @column cells c e hcells hc hleft =>
      rw [hcells]
      obtain ⟨left, right, hall⟩ := List.append_of_mem c.mem_all
      exact List.findSome?_eq_some_iff.2
        ⟨left, c, right, hall, hc, fun d hd => hleft d ((PriceColumn.mem_left_iff hall).1 hd)⟩

/-- Rows are read one after the other. -/
theorem barsOfRows_cons (t : Table) (r : Row) (rows : List Row) :
    barsOfRows t (r :: rows) = do
      let b ← barOfRow t r
      let more ← barsOfRows t rows
      return b :: more := by
  rw [barsOfRows, barOfRow]
  cases t.cells r with
  | error fault => rfl
  | ok cells =>
    dsimp only
    cases bar (r.number + 1) cells with
    | error e => rfl
    | ok b =>
      dsimp only
      cases barsOfRows t rows <;> rfl

/-- Rows are read as the bars that they hold, in their order. -/
theorem barsOfRows_eq_ok_iff {bars : List (Bar Float)} :
    barsOfRows t rows = .ok bars ↔ List.Forall₂ (RowHolds t) rows bars := by
  induction rows generalizing bars with
  | nil =>
    rw [barsOfRows, List.forall₂_nil_left_iff, Except.ok.injEq, eq_comm]
  | cons r rows ih =>
    simp only [barsOfRows_cons, bind_eq_ok_iff, barOfRow_eq_ok_iff, ih, List.forall₂_cons_left_iff]
    constructor
    · rintro ⟨b, hb, more, hmore, h⟩
      cases h
      exact ⟨b, more, hb, hmore, rfl⟩
    · rintro ⟨b, more, hb, hmore, rfl⟩
      exact ⟨b, hb, more, hmore, rfl⟩

/-- The fault of reading rows is what is wrong with the first of them where anything is. -/
theorem fault?_barsOfRows (t : Table) (rows : List Row) :
    fault? (barsOfRows t rows) = rows.findSome? (rowFault? t) := by
  induction rows with
  | nil => rfl
  | cons r rows ih =>
    have hrest (b : Bar Float) : fault? (do return b :: (← barsOfRows t rows)) =
        rows.findSome? (rowFault? t) := by
      rw [← ih]
      cases barsOfRows t rows <;> rfl
    rw [barsOfRows_cons, fault?_bind hrest, findSome?_cons_eq_or, fault?_barOfRow]

/-- Rows are not read because of the first of them that holds no bar. -/
theorem barsOfRows_eq_error_iff {e : PriceFault} :
    barsOfRows t rows = .error e ↔ ∃ before r after, rows = before ++ r :: after ∧
      Offends t r e ∧ ∀ s ∈ before, ∃ b, RowHolds t s b := by
  simp only [← fault?_eq_some_iff, fault?_barsOfRows, List.findSome?_eq_some_iff,
    rowFault?_eq_some_iff, rowFault?_eq_none_iff]

/-- Rows are read exactly if each of them holds a bar. -/
theorem exists_barsOfRows_iff :
    (∃ bars, barsOfRows t rows = .ok bars) ↔ ∀ r ∈ rows, ∃ b, RowHolds t r b := by
  simp only [← fault?_eq_none_iff, fault?_barsOfRows, List.findSome?_eq_none_iff,
    ← rowFault?_eq_none_iff]

/-- What a row holds is a matter of its fields and of how many fields the header has. -/
theorem rowHolds_congr {t' : Table} {r r' : Row} {b : Bar Float}
    (hheader : t.header.length = t'.header.length) (hfields : r.record.fields = r'.record.fields) :
    RowHolds t r b ↔ RowHolds t' r' b := by
  unfold RowHolds Table.cells
  rw [hheader, hfields]

end Prices

end TradeRules
