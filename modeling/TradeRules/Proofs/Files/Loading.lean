import TradeRules.Proofs.Files.Rows
import TradeRules.Proofs.Text.Encoding

/-!
# Loading a price file

The history of a symbol is loaded as a whole or not at all (`Prices.fetch_all_or_nothing`): there
is one if the symbol is fit for a file name and its file is a text with rows that all hold a bar.
Without a file, and without rows, there is no data. Everything else is a failure, and where rows are
to blame it is the first of them that holds no bar, with its leftmost column at fault.
-/

namespace TradeRules

open Text

/-- Some bytes are a text. -/
def IsText (bytes : List UInt8) : Prop := ∃ cs, Utf8.encode cs = bytes

/-- A name stands for something directly in a directory. -/
structure IsEntryName (name : String) : Prop where
  /-- There is a name. -/
  nonempty : name ≠ ""
  /-- It leads into no other directory. -/
  noSlash : '/' ∉ name.toList
  /-- It is not that of the directory itself. -/
  ne_dot : name ≠ "."
  /-- It is not that of the parent. -/
  ne_dots : name ≠ ".."

/-- The rows of a table are numbered from 1. -/
theorem Table.number_of_read? {bytes : List UInt8} {t : Table} {before after : List Row} {r : Row}
    (h : Table.read? bytes = some t) (hrows : t.rows = before ++ r :: after) :
    r.number = before.length + 1 := by
  unfold Table.read? at h
  split at h
  · cases h
  · cases h
    have hget := congrArg (fun rows => rows[before.length]?) hrows
    simp only [List.getElem?_mapIdx, List.getElem?_append_right (Nat.le_refl _), Nat.sub_self,
      List.getElem?_cons_zero, Option.map_eq_some_iff] at hget
    obtain ⟨record, -, rfl⟩ := hget
    rfl

namespace Prices

/-- A symbol is fit for the name of a file. -/
structure IsPlain (symbol : String) : Prop where
  /-- It is not empty. -/
  nonempty : symbol ≠ ""
  /-- It has no slash. -/
  noSlash : '/' ∉ symbol.toList
  /-- It has no backslash. -/
  noBackslash : '\\' ∉ symbol.toList
  /-- No two dots follow each other in it. -/
  noTwoDots : ¬['.', '.'] <:+: symbol.toList

/-- Two dots are looked for at every place. -/
theorem hasTwoDots_iff {cs : List Char} : hasTwoDots cs = true ↔ ['.', '.'] <:+: cs := by
  fun_induction hasTwoDots cs with
  | case1 rest => exact iff_of_true rfl (List.prefix_append ['.', '.'] rest).isInfix
  | case2 c rest hdots ih =>
    have hprefix : ¬['.', '.'] <+: c :: rest := by
      rintro ⟨more, hmore⟩
      cases hmore
      exact hdots more rfl rfl
    rw [ih, List.infix_cons_iff, or_iff_right hprefix]
  | case3 => exact iff_of_false Bool.false_ne_true fun h => by simp at h

/-- The symbols that are accepted are those that are fit for a file name. -/
theorem isFileName_iff {symbol : String} : isFileName symbol = true ↔ IsPlain symbol := by
  have hdots : hasTwoDots symbol.toList = false ↔ ¬['.', '.'] <:+: symbol.toList := by
    rw [← hasTwoDots_iff, Bool.not_eq_true]
  simp only [isFileName, Bool.and_eq_true, bne_iff_ne, ne_eq, String.toList_eq_nil_iff,
    Bool.not_eq_true', List.contains_eq_mem, decide_eq_false_iff_not, hdots]
  constructor
  · rintro ⟨⟨⟨hempty, hslash⟩, hbackslash⟩, hdots⟩
    exact ⟨hempty, hslash, hbackslash, hdots⟩
  · rintro ⟨hempty, hslash, hbackslash, hdots⟩
    exact ⟨⟨⟨hempty, hslash⟩, hbackslash⟩, hdots⟩

/-- The file of a symbol that is fit for a file name is directly in the directory. -/
theorem IsPlain.isEntryName {symbol : String} (h : IsPlain symbol) :
    IsEntryName (symbol ++ ".csv") := by
  have hlength : 4 ≤ (symbol ++ ".csv").toList.length := by
    rw [String.toList_append, List.length_append]
    exact Nat.le_add_left 4 _
  have hslash : '/' ∉ (symbol ++ ".csv").toList := by
    rw [String.toList_append, List.mem_append]
    exact not_or.2 ⟨h.noSlash, by decide⟩
  refine ⟨?_, hslash, ?_, ?_⟩ <;>
  · intro hname
    rw [hname] at hlength
    exact absurd hlength (by decide)

/-- A file holds bars: it is a text, and its rows hold them one by one. -/
inductive FileHolds (bytes : List UInt8) : List (Bar Float) → Prop where
  /-- A text without a header has no rows. -/
  | empty (htext : IsText bytes) (h : Table.read? bytes = none) : FileHolds bytes []
  /-- The rows are below the header. -/
  | table {t bars} (htext : IsText bytes) (h : Table.read? bytes = some t)
    (hrows : List.Forall₂ (RowHolds t) t.rows bars) : FileHolds bytes bars

/-- There is nothing in a file: there is no such file, or it is a text without rows. -/
def IsVacant (answer : Except ReadFault (List UInt8)) : Prop :=
  answer = .error .notFound ∨
    ∃ bytes, answer = .ok bytes ∧ IsText bytes ∧ ∀ t, Table.read? bytes = some t → t.rows = []

/-- There are bars in a file: it is a text with rows, each of which holds a bar. -/
def IsLoadable (answer : Except ReadFault (List UInt8)) : Prop :=
  ∃ bytes t, answer = .ok bytes ∧ IsText bytes ∧ Table.read? bytes = some t ∧ t.rows ≠ [] ∧
    ∀ r ∈ t.rows, ∃ b, RowHolds t r b

variable {path symbol : String} {days : Nat} {bytes : List UInt8} {held : List (Bar Float)}
  {answer : Except ReadFault (List UInt8)}

/-- Bytes that are no text hold nothing. -/
theorem bars_of_not_isText (h : ¬IsText bytes) :
    bars path bytes = .error (.unreadable path notUtf8) := by
  unfold bars
  cases hdecode : Utf8.decode bytes with
  | error index => rfl
  | ok cs => exact absurd ⟨cs, Utf8.decode_eq_ok_iff.1 hdecode⟩ h

/-- A text without a header holds no bars. -/
theorem bars_of_read?_eq_none (htext : IsText bytes) (h : Table.read? bytes = none) :
    bars path bytes = .ok [] := by
  obtain ⟨cs, hcs⟩ := htext
  simp only [bars, Utf8.decode_eq_ok_iff.2 hcs, h]

/-- The bars of a text with a header are those of the rows below it. -/
theorem bars_of_read?_eq_some {t : Table} (htext : IsText bytes) (h : Table.read? bytes = some t) :
    bars path bytes = barsOfRows t t.rows := by
  obtain ⟨cs, hcs⟩ := htext
  simp only [bars, Utf8.decode_eq_ok_iff.2 hcs, h]

/-- A file is read as the bars that it holds. -/
theorem bars_eq_ok_iff : bars path bytes = .ok held ↔ FileHolds bytes held := by
  constructor
  · intro h
    by_cases htext : IsText bytes
    · cases htable : Table.read? bytes with
      | none =>
        rw [bars_of_read?_eq_none htext htable] at h
        cases h
        exact .empty htext htable
      | some t =>
        rw [bars_of_read?_eq_some htext htable] at h
        exact .table htext htable (barsOfRows_eq_ok_iff.1 h)
    · rw [bars_of_not_isText htext] at h
      cases h
  · intro h
    cases h with
    | empty htext htable => exact bars_of_read?_eq_none htext htable
    | table htext htable hrows =>
      rw [bars_of_read?_eq_some htext htable]
      exact barsOfRows_eq_ok_iff.2 hrows

/-- What is read of a file is what it holds. -/
theorem fileHolds_of_toOption (h : (bars path bytes).toOption = some held) :
    FileHolds bytes held := by
  cases hbars : bars path bytes with
  | error e =>
    rw [hbars] at h
    cases h
  | ok read =>
    rw [hbars] at h
    cases h
    exact bars_eq_ok_iff.1 hbars

/-- A file holds no bars exactly if it is a text without rows. -/
theorem fileHolds_nil_iff :
    FileHolds bytes [] ↔ IsText bytes ∧ ∀ t, Table.read? bytes = some t → t.rows = [] := by
  constructor
  · intro h
    cases h with
    | empty htext htable => exact ⟨htext, fun t ht => by rw [htable] at ht; cases ht⟩
    | table htext htable hrows =>
      refine ⟨htext, fun t ht => ?_⟩
      cases htable.symm.trans ht
      exact List.forall₂_nil_right_iff.1 hrows
  · rintro ⟨htext, hrows⟩
    cases htable : Table.read? bytes with
    | none => exact .empty htext htable
    | some t =>
      refine .table htext htable ?_
      rw [hrows t htable]
      exact .nil

/-- A file holds some bars exactly if it is a text with rows, each of which holds a bar. -/
theorem exists_fileHolds_iff :
    (∃ held, FileHolds bytes held ∧ held ≠ []) ↔ IsLoadable (.ok bytes) := by
  constructor
  · rintro ⟨held, h, hne⟩
    cases h with
    | empty htext htable => exact absurd rfl hne
    | @table t _ htext htable hrows =>
      refine ⟨bytes, t, rfl, htext, htable, ?_, ?_⟩
      · intro hempty
        rw [hempty, List.forall₂_nil_left_iff] at hrows
        exact hne hrows
      · exact exists_barsOfRows_iff.1 ⟨held, barsOfRows_eq_ok_iff.2 hrows⟩
  · rintro ⟨_, t, hbytes, htext, htable, hne, hrows⟩
    cases hbytes
    obtain ⟨held, hheld⟩ := exists_barsOfRows_iff.2 hrows
    have hforall := barsOfRows_eq_ok_iff.1 hheld
    refine ⟨held, .table htext htable hforall, ?_⟩
    rintro rfl
    exact hne (List.forall₂_nil_right_iff.1 hforall)

/-- What a file that is there makes of a history. -/
theorem history_ok (symbol path : String) (days : Nat) (bytes : List UInt8) :
    history symbol path days (.ok bytes) =
      match bars path bytes with
      | .error fault => .error (.failed symbol fault.message)
      | .ok [] => .error (.noData symbol)
      | .ok bars => .ok ((Series.ofBars symbol bars).newest days) := rfl

/-- The history of a symbol is that of the bars in its file, if there are any. -/
theorem history_of_fileHolds (h : FileHolds bytes held) (hne : held ≠ []) :
    history symbol path days (.ok bytes) = .ok ((Series.ofBars symbol held).newest days) := by
  rw [history_ok, bars_eq_ok_iff.2 h]
  cases held with
  | nil => exact absurd rfl hne
  | cons b held => rfl

/-- Without bars in the file there is no data. -/
theorem history_of_isVacant (h : IsVacant answer) :
    history symbol path days answer = .error (.noData symbol) := by
  rcases h with rfl | ⟨bytes, rfl, hempty⟩
  · rfl
  · rw [history_ok, bars_eq_ok_iff.2 (fileHolds_nil_iff.2 hempty)]

/-- With bars in the file there is a history. -/
theorem exists_history_of_isLoadable (h : IsLoadable answer) :
    ∃ s, history symbol path days answer = .ok s := by
  obtain ⟨bytes, -, rfl, -⟩ := id h
  obtain ⟨held, hheld, hne⟩ := exists_fileHolds_iff.2 h
  exact ⟨_, history_of_fileHolds hheld hne⟩

/-- In every other case the reading fails. -/
theorem exists_history_eq_failed (hload : ¬IsLoadable answer) (hvacant : ¬IsVacant answer) :
    ∃ reason, history symbol path days answer = .error (.failed symbol reason) := by
  cases answer with
  | error fault =>
    cases fault with
    | notFound => exact absurd (.inl rfl) hvacant
    | _ => exact ⟨_, rfl⟩
  | ok bytes =>
    rw [history_ok]
    cases hbars : bars path bytes with
    | error e => exact ⟨_, rfl⟩
    | ok held =>
      rw [bars_eq_ok_iff] at hbars
      cases held with
      | nil => exact absurd (.inr ⟨bytes, rfl, fileHolds_nil_iff.1 hbars⟩) hvacant
      | cons b held => exact absurd (exists_fileHolds_iff.1 ⟨_, hbars, List.cons_ne_nil _ _⟩) hload

/-- There is a history exactly if there are bars in the file. -/
theorem exists_history_iff :
    (∃ s, history symbol path days answer = .ok s) ↔ IsLoadable answer := by
  refine ⟨fun ⟨s, hs⟩ => ?_, exists_history_of_isLoadable⟩
  by_contra hload
  by_cases hvacant : IsVacant answer
  · rw [history_of_isVacant hvacant] at hs
    cases hs
  · obtain ⟨reason, hreason⟩ := exists_history_eq_failed hload hvacant
    cases hreason.symm.trans hs

/-- There is no data exactly if there is nothing in the file. -/
theorem history_eq_noData_iff :
    history symbol path days answer = .error (.noData symbol) ↔ IsVacant answer := by
  refine ⟨fun h => ?_, history_of_isVacant⟩
  by_contra hvacant
  by_cases hload : IsLoadable answer
  · obtain ⟨s, hs⟩ := exists_history_of_isLoadable hload
    cases hs.symm.trans h
  · obtain ⟨reason, hreason⟩ := exists_history_eq_failed hload hvacant
    cases hreason.symm.trans h

/-- Reading fails exactly if there are neither bars nor nothing in the file. -/
theorem exists_history_eq_failed_iff :
    (∃ reason, history symbol path days answer = .error (.failed symbol reason)) ↔
      ¬(IsLoadable answer ∨ IsVacant answer) := by
  rw [not_or]
  refine ⟨fun ⟨reason, h⟩ => ⟨fun hload => ?_, fun hvacant => ?_⟩,
    fun h => exists_history_eq_failed h.1 h.2⟩
  · obtain ⟨s, hs⟩ := exists_history_of_isLoadable hload
    cases hs.symm.trans h
  · rw [history_of_isVacant hvacant] at h
    cases h

/-- A failure is put down to the first row that holds no bar. -/
theorem history_of_offends {t : Table} {before after : List Row} {r : Row} {e : PriceFault}
    (htext : IsText bytes) (htable : Table.read? bytes = some t)
    (hrows : t.rows = before ++ r :: after) (hbefore : ∀ s ∈ before, ∃ b, RowHolds t s b)
    (h : Offends t r e) :
    history symbol path days (.ok bytes) = .error (.failed symbol e.message) := by
  rw [history_ok, bars_of_read?_eq_some htext htable,
    barsOfRows_eq_error_iff.2 ⟨before, r, after, hrows, h, hbefore⟩]

variable {request : Request}

/-- A symbol that is fit for a file name is looked up in its file. -/
theorem fetch_of_isPlain (read : FileReader Id) (directory : String) (h : IsPlain request.symbol) :
    Id.run (fetch read directory request) =
      history request.symbol (Prices.path directory request.symbol) request.days
        (Id.run (read (Prices.path directory request.symbol))) := by
  unfold fetch
  rw [if_pos (isFileName_iff.2 h)]
  rfl

/-- Another symbol is refused without any reading. -/
theorem fetch_of_not_isPlain (read : FileReader Id) (directory : String)
    (h : ¬IsPlain request.symbol) :
    Id.run (fetch read directory request) =
      .error (.failed request.symbol PriceFault.invalidSymbol.message) := by
  unfold fetch
  rw [if_neg (isFileName_iff.not.2 h)]
  rfl

/-- Where a row holds no bar, there is a first one, and something is wrong with it. -/
theorem exists_first_offends {t : Table} (h : ∃ r ∈ t.rows, ¬∃ b, RowHolds t r b) :
    ∃ before r after e, t.rows = before ++ r :: after ∧
      (∀ s ∈ before, ∃ b, RowHolds t s b) ∧ Offends t r e := by
  cases hrows : barsOfRows t t.rows with
  | ok held =>
    obtain ⟨r, hr, hnone⟩ := h
    exact absurd (exists_barsOfRows_iff.1 ⟨held, hrows⟩ r hr) hnone
  | error e =>
    obtain ⟨before, r, after, hsplit, hoffends, hbefore⟩ := barsOfRows_eq_error_iff.1 hrows
    exact ⟨before, r, after, e, hsplit, hbefore, hoffends⟩

/-- A price history is loaded as a whole or not at all. There is one exactly if the symbol is fit
for a file name and its file, which is directly in the directory, is a text with rows that all hold a
bar; there is no data exactly if the file of such a symbol is missing or has no rows; and everything
else is a failure. No other file is read. Where rows hold no bar, the failure is that of the first
of them, whose number counts the rows before it, in its leftmost column at fault. -/
theorem fetch_all_or_nothing (read : FileReader Id) (directory : String) (request : Request) :
    let file := joinPath directory (request.symbol ++ ".csv")
    let result := Id.run (fetch read directory request)
    ((∃ s, result = .ok s) ↔ IsPlain request.symbol ∧ IsLoadable (Id.run (read file))) ∧
      (result = .error (.noData request.symbol) ↔
        IsPlain request.symbol ∧ IsVacant (Id.run (read file))) ∧
      ((∃ reason, result = .error (.failed request.symbol reason)) ↔
        ¬(IsPlain request.symbol ∧
          (IsLoadable (Id.run (read file)) ∨ IsVacant (Id.run (read file))))) ∧
      (IsPlain request.symbol → IsEntryName (request.symbol ++ ".csv")) ∧
      (∀ other : FileReader Id, (IsPlain request.symbol → other file = read file) →
        fetch other directory request = fetch read directory request) ∧
      ∀ bytes t, IsPlain request.symbol → Id.run (read file) = .ok bytes → IsText bytes →
        Table.read? bytes = some t → (∃ r ∈ t.rows, ¬∃ b, RowHolds t r b) →
          ∃ before r after e, t.rows = before ++ r :: after ∧
            (∀ s ∈ before, ∃ b, RowHolds t s b) ∧ r.number = before.length + 1 ∧ Offends t r e ∧
              result = .error (.failed request.symbol e.message) := by
  intro file result
  by_cases hplain : IsPlain request.symbol
  · have hresult : result = history request.symbol file request.days (Id.run (read file)) :=
      fetch_of_isPlain read directory hplain
    simp only [hresult, hplain, true_and, true_implies]
    refine ⟨exists_history_iff, history_eq_noData_iff, exists_history_eq_failed_iff,
      hplain.isEntryName, fun other h => ?_, fun bytes t hbytes htext htable hbad => ?_⟩
    · have hsame : Id.run (fetch other directory request) =
          history request.symbol file request.days (Id.run (other file)) :=
        fetch_of_isPlain other directory hplain
      rw [h] at hsame
      exact hsame.trans hresult.symm
    · obtain ⟨before, r, after, e, hrows, hbefore, hoffends⟩ := exists_first_offends hbad
      refine ⟨before, r, after, e, hrows, hbefore, Table.number_of_read? htable hrows, hoffends, ?_⟩
      rw [hbytes]
      exact history_of_offends htext htable hrows hbefore hoffends
  · have hresult (other : FileReader Id) : Id.run (fetch other directory request) =
        .error (.failed request.symbol PriceFault.invalidSymbol.message) :=
      fetch_of_not_isPlain other directory hplain
    simp only [hplain, false_and, false_implies, not_false_eq_true, iff_true, iff_false]
    refine ⟨?_, ?_, ⟨_, hresult read⟩, trivial, fun other _ => ?_, fun _ _ => trivial⟩
    · rintro ⟨s, hs⟩
      cases (hresult read).symm.trans hs
    · intro h
      cases (hresult read).symm.trans h
    · exact (hresult other).trans (hresult read).symm

/-- A file with two rows, the second of which has two columns without numbers. -/
def secondRowBad : List UInt8 :=
  Utf8.encode ("datetime,open,high,low,close,volume\n2024-01-01,1,2,0.5,1.5,100\n" ++
    "2024-01-02,1,x,0.5,y,100\n").toList

/-- The second row is in the third line, and its column of highs comes before that of closes. -/
theorem fetch_all_or_nothing_second_row :
    Id.run (fetch (fun _ => pure (.ok secondRowBad)) "data" ⟨"ABC", 2⟩) =
      .error (.failed "ABC" "line 3: invalid high value 'x': invalid float literal") := by
  have hplain : IsPlain "ABC" := isFileName_iff.1 (by decide)
  have hrows : (Table.read? secondRowBad).map (fun t => t.rows.findSome? (rowFault? t)) =
      some (some (.invalidNumber 3 "high" "x" .malformed)) := by decide +kernel
  obtain ⟨t, htable, hfirst⟩ := Option.map_eq_some_iff.1 hrows
  obtain ⟨row, hrow, hfault⟩ := List.exists_of_findSome?_eq_some hfirst
  have hbad : ∃ r ∈ t.rows, ¬∃ b, RowHolds t r b := by
    refine ⟨row, hrow, fun hholds => ?_⟩
    rw [rowFault?_eq_none_iff.2 hholds] at hfault
    cases hfault
  obtain ⟨before, r, after, e, hsplit, hbefore, -, hoffends, hresult⟩ :=
    (fetch_all_or_nothing (fun _ => pure (.ok secondRowBad)) "data" ⟨"ABC", 2⟩).2.2.2.2.2
      secondRowBad t hplain rfl ⟨_, rfl⟩ htable hbad
  have he : some e = some (.invalidNumber 3 "high" "x" .malformed) := by
    rw [← hfirst, ← fault?_barsOfRows, eq_comm, fault?_eq_some_iff]
    exact barsOfRows_eq_error_iff.2 ⟨before, r, after, hsplit, hoffends, hbefore⟩
  cases he
  exact hresult

end Prices

end TradeRules
