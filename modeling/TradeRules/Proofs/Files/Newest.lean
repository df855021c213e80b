import TradeRules.Proofs.Files.Loading
import TradeRules.Proofs.Market.Sorting

/-!
# The newest bars of a file

The bars of a price file may come in any order: they are sorted stably, and a fetch has the newest
of them, oldest first (`Prices.fetch_newest`). So the order of rows that are all of different moments
does not matter, and a fetch with a limit is what that limit leaves of a fetch with a larger one.
-/

namespace TradeRules

/-- The fields of the rows of a table. -/
def Table.contents (t : Table) : List (List (List UInt8)) := t.rows.map fun r => r.record.fields

open Text

namespace Prices

/-- Tables with the same rows in another order hold the same bars in another order. -/
theorem exists_perm_of_contents_perm {t t' : Table} {rows : List (Bar Float)}
    (hheader : t.header.length = t'.header.length) (hcontents : t.contents.Perm t'.contents)
    (hrows : List.Forall₂ (RowHolds t) t.rows rows) :
    ∃ rows', List.Forall₂ (RowHolds t') t'.rows rows' ∧ rows'.Perm rows := by
  -- What a row holds is a matter of its contents, so that the contents can be rearranged instead.
  let holds (fields : List (List UInt8)) (b : Bar Float) : Prop :=
    ∃ r : Row, r.record.fields = fields ∧ RowHolds t r b
  have hall : List.Forall₂ holds t.contents rows := by
    rw [Table.contents, List.forall₂_map_left_iff]
    exact hrows.imp fun r b h => ⟨r, rfl, h⟩
  obtain ⟨rows', hrows', hperm⟩ := List.perm_comp_forall₂ hcontents.symm hall
  rw [Table.contents, List.forall₂_map_left_iff] at hrows'
  refine ⟨rows', hrows'.imp ?_, hperm⟩
  rintro r' b ⟨r, hfields, hholds⟩
  exact (rowHolds_congr hheader hfields).1 hholds

variable {directory symbol : String} {bytes : List UInt8} {rows : List (Bar Float)}

/-- A fetch with a limit is what that limit leaves of a fetch with a larger one. -/
theorem fetch_eq_map_newest (read : FileReader Id) (directory symbol : String) {m n : Nat}
    (h : m ≤ n) :
    Id.run (fetch read directory ⟨symbol, m⟩) =
      (Id.run (fetch read directory ⟨symbol, n⟩)).map (Series.newest m) := by
  have hhistory (path : String) (answer : Except ReadFault (List UInt8)) :
      history symbol path m answer = (history symbol path n answer).map (Series.newest m) := by
    cases answer with
    | error fault => cases fault <;> rfl
    | ok bytes =>
      rw [history_ok, history_ok]
      cases bars path bytes with
      | error e => rfl
      | ok rows =>
        cases rows with
        | nil => rfl
        | cons b rows =>
          rw [Except.map, Series.newest_newest, min_eq_left h]
  by_cases hplain : IsPlain symbol
  · rw [fetch_of_isPlain read directory hplain, fetch_of_isPlain read directory hplain]
    exact hhistory _ _
  · rw [fetch_of_not_isPlain read directory hplain, fetch_of_not_isPlain read directory hplain]
    rfl

/-- A fetch from a file with rows that hold bars has the newest of these bars. -/
theorem fetch_of_fileHolds {read : FileReader Id} (hplain : IsPlain symbol)
    (hread : Id.run (read (path directory symbol)) = .ok bytes) (hrows : FileHolds bytes rows)
    (hne : rows ≠ []) (days : Nat) :
    Id.run (fetch read directory ⟨symbol, days⟩) =
      .ok ((Series.ofBars symbol rows).newest days) := by
  rw [fetch_of_isPlain read directory hplain, hread]
  exact history_of_fileHolds hrows hne

/-- There is no data in a file without rows. -/
theorem fetch_of_fileHolds_nil {read : FileReader Id} (hplain : IsPlain symbol)
    (hread : Id.run (read (path directory symbol)) = .ok bytes) (hrows : FileHolds bytes [])
    (days : Nat) : Id.run (fetch read directory ⟨symbol, days⟩) = .error (.noData symbol) := by
  rw [fetch_of_isPlain read directory hplain, hread]
  exact history_of_isVacant (.inr ⟨bytes, rfl, fileHolds_nil_iff.1 hrows⟩)

/-- A fetch does not depend on the order of the rows, if they hold bars of different moments. -/
theorem fetch_eq_of_contents_perm {read read' : FileReader Id} (hplain : IsPlain symbol)
    {bytes' : List UInt8} {t t' : Table}
    (hread : Id.run (read (path directory symbol)) = .ok bytes)
    (hread' : Id.run (read' (path directory symbol)) = .ok bytes') (hrows : FileHolds bytes rows)
    (hdistinct : (rows.map Bar.time).Nodup) (htable : Table.read? bytes = some t)
    (htable' : Table.read? bytes' = some t') (htext' : IsText bytes')
    (hheader : t.header.length = t'.header.length) (hcontents : t.contents.Perm t'.contents)
    (days : Nat) :
    Id.run (fetch read' directory ⟨symbol, days⟩) =
      Id.run (fetch read directory ⟨symbol, days⟩) := by
  have hforall : List.Forall₂ (RowHolds t) t.rows rows := by
    cases hrows with
    | empty _ hnone => cases hnone.symm.trans htable
    | table _ hsome hforall =>
      cases hsome.symm.trans htable
      exact hforall
  obtain ⟨rows', hforall', hperm⟩ := exists_perm_of_contents_perm hheader hcontents hforall
  have hrows' : FileHolds bytes' rows' := .table htext' htable' hforall'
  by_cases hempty : rows = []
  · subst hempty
    obtain rfl := List.perm_nil.1 hperm
    rw [fetch_of_fileHolds_nil hplain hread hrows, fetch_of_fileHolds_nil hplain hread' hrows']
  · have hempty' : rows' ≠ [] := by
      rintro rfl
      exact hempty (List.nil_perm.1 hperm)
    rw [fetch_of_fileHolds hplain hread hrows hempty,
      fetch_of_fileHolds hplain hread' hrows' hempty',
      Series.ofBars_eq_of_perm symbol hperm.symm hdistinct]

/-- A fetch from a file with rows that all hold bars has the newest of these bars, as many as it may
have or as there are: it is the end of the one way to sort the bars stably. Without rows there is no
data. The order of the rows does not matter if all are of different moments; a fetch with a limit is
what that limit leaves of a fetch with a larger one, and of two limits the smaller one counts; and
bars that come strictly newest first need not be sorted, but only be turned round. -/
theorem fetch_newest (read : FileReader Id) (directory symbol : String) (bytes : List UInt8)
    (rows : List (Bar Float)) (hplain : IsPlain symbol)
    (hread : Id.run (read (joinPath directory (symbol ++ ".csv"))) = .ok bytes)
    (hrows : FileHolds bytes rows) :
    (rows ≠ [] → ∃ sorted, Series.StablySorted rows sorted ∧
        ∀ days, ∃ s, Id.run (fetch read directory ⟨symbol, days⟩) = .ok s ∧ s.symbol = symbol ∧
          s.bars <:+ sorted ∧ s.bars.length = min days rows.length ∧ s.bars.Subperm rows) ∧
      (rows = [] → ∀ days,
        Id.run (fetch read directory ⟨symbol, days⟩) = .error (.noData symbol)) ∧
      (∀ (read' : FileReader Id) bytes' t t',
        Id.run (read' (joinPath directory (symbol ++ ".csv"))) = .ok bytes' → IsText bytes' →
        Table.read? bytes = some t → Table.read? bytes' = some t' →
        t.header.length = t'.header.length → t.contents.Perm t'.contents →
        (rows.map Bar.time).Nodup → ∀ days,
          Id.run (fetch read' directory ⟨symbol, days⟩) =
            Id.run (fetch read directory ⟨symbol, days⟩)) ∧
      (∀ m n, m ≤ n → Id.run (fetch read directory ⟨symbol, m⟩) =
        (Id.run (fetch read directory ⟨symbol, n⟩)).map (Series.newest m)) ∧
      (∀ m n (s : Series Float), (s.newest n).newest m = s.newest (min m n)) ∧
      ∀ bars : List (Bar Float), bars.Pairwise (fun a b => b.time.rank < a.time.rank) →
        Series.ofNewestFirst symbol bars = Series.ofBars symbol bars := by
  refine ⟨fun hne => ?_, ?_, ?_, fun m n => fetch_eq_map_newest read directory symbol,
    Series.newest_newest, fun bars => Series.ofNewestFirst_eq_ofBars symbol⟩
  · have hsorted := Series.stablySorted_ofBars symbol rows
    refine ⟨_, hsorted, fun days => ⟨_, fetch_of_fileHolds hplain hread hrows hne days, rfl, ?_⟩⟩
    have hsuffix := Series.isSuffix_newest days (Series.ofBars symbol rows)
    refine ⟨hsuffix, ?_, hsuffix.sublist.subperm.trans hsorted.perm.subperm⟩
    rw [Series.length_newest, hsorted.perm.length_eq]
  · rintro rfl days
    exact fetch_of_fileHolds_nil hplain hread hrows days
  · intro read' bytes' t t' hread' htext' htable htable' hheader hcontents hdistinct
    exact fetch_eq_of_contents_perm hplain hread hread' hrows hdistinct htable htable' htext'
      hheader hcontents

/-- A file with two rows, the newer one first. -/
def newerFirst : List UInt8 :=
  Utf8.encode ("datetime,open,high,low,close,volume\n2024-01-02,2,2,2,2,200\n" ++
    "2024-01-01,1,1,1,1,100\n").toList

/-- The same rows, the older one first. -/
def olderFirst : List UInt8 :=
  Utf8.encode ("datetime,open,high,low,close,volume\n2024-01-01,1,1,1,1,100\n" ++
    "2024-01-02,2,2,2,2,200\n").toList

/-- In either order of the rows, a fetch of one bar has the same bar. -/
theorem fetch_newest_two_rows :
    ∃ rows sorted s, FileHolds newerFirst rows ∧ rows.length = 2 ∧
      Series.StablySorted rows sorted ∧ s.bars <:+ sorted ∧ s.bars.length = 1 ∧
        Id.run (fetch (fun _ => pure (.ok newerFirst)) "data" ⟨"ABC", 1⟩) = .ok s ∧
          Id.run (fetch (fun _ => pure (.ok olderFirst)) "data" ⟨"ABC", 1⟩) = .ok s := by
  have hplain : IsPlain "ABC" := isFileName_iff.1 (by decide)
  have hbars : (bars "" newerFirst).toOption.any
      (fun rows => rows.length = 2 ∧ (rows.map Bar.time).Nodup) = true := by decide +kernel
  obtain ⟨rows, hrows, hall⟩ := (Option.any_eq_true _ _).1 hbars
  obtain ⟨hlength, hdistinct⟩ := of_decide_eq_true hall
  have hholds := fileHolds_of_toOption hrows
  have htables : (Table.read? newerFirst).any (fun t => (Table.read? olderFirst).any fun t' =>
      t.header.length = t'.header.length ∧ t.contents.Perm t'.contents) = true := by decide +kernel
  obtain ⟨t, htable, htables⟩ := (Option.any_eq_true _ _).1 htables
  obtain ⟨t', htable', hsame⟩ := (Option.any_eq_true _ _).1 htables
  obtain ⟨hheader, hcontents⟩ := of_decide_eq_true hsame
  have hne : rows ≠ [] := List.ne_nil_of_length_pos (by omega)
  obtain ⟨hnewest, -, hshuffled, -⟩ := fetch_newest (fun _ => pure (.ok newerFirst)) "data" "ABC"
    newerFirst rows hplain rfl hholds
  obtain ⟨sorted, hsorted, hdays⟩ := hnewest hne
  obtain ⟨s, hs, -, hsuffix, hcount, -⟩ := hdays 1
  refine ⟨rows, sorted, s, hholds, hlength, hsorted, hsuffix, by omega, hs, ?_⟩
  rw [hshuffled (fun _ => pure (.ok olderFirst)) olderFirst t t' rfl ⟨_, rfl⟩ htable htable' hheader
    hcontents hdistinct, hs]

/-- A file with a header and no rows. -/
def headerOnly : List UInt8 := Utf8.encode "datetime,open,high,low,close,volume\n".toList

/-- All rows of a file without rows hold bars, but there is no series, not even one without bars. -/
theorem fetch_header_only :
    FileHolds headerOnly [] ∧
      Id.run (fetch (fun _ => pure (.ok headerOnly)) "data" ⟨"EMPTY", 10⟩) =
        .error (.noData "EMPTY") := by
  have hplain : IsPlain "EMPTY" := isFileName_iff.1 (by decide)
  have htable : (Table.read? headerOnly).all (fun t => t.rows = []) = true := by decide +kernel
  have hholds : FileHolds headerOnly [] := by
    refine fileHolds_nil_iff.2 ⟨⟨_, rfl⟩, fun t ht => ?_⟩
    rw [ht] at htable
    exact of_decide_eq_true htable
  exact ⟨hholds, fetch_of_fileHolds_nil hplain rfl hholds 10⟩

end Prices

end TradeRules
