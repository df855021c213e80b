import TradeRules.Proofs.Command.Stages
import TradeRules.Proofs.Expr.Inventory
import TradeRules.Proofs.Files.Newest
import TradeRules.Proofs.Indicator.Positions

/-!
# The history that is shown

The history of an indicator is shown under a heading, one line per point: the newest ones, as many
as are asked for or as there are (`Command.history_shows_newest_points`). Before them so many bars
are read that each of these points has a value, if the file has enough bars for that; the lines then
tell these values, and none of them ends in the minus of a missing one.
-/

namespace TradeRules

open Number

variable {α : Type} [Scalar α]

/-- The last points of a history are as many as asked for, or as there are bars. -/
theorem Indicator.length_drop_history (i : Indicator) (bars : List (Bar α)) (limit : Nat) :
    ((i.history bars).drop ((i.history bars).length - limit)).length = min limit bars.length := by
  rw [List.length_drop, i.length_history]
  omega

/-- The last points of a history are of the moments of the last bars. -/
theorem Indicator.map_time_drop_history (i : Indicator) (bars : List (Bar α)) (limit : Nat) :
    ((i.history bars).drop ((i.history bars).length - limit)).map Point.time =
      (bars.drop (bars.length - limit)).map Bar.time := by
  rw [List.map_drop, i.map_time_history, ← List.map_drop, i.length_history]

/-- The last points of a history have values if the bars before them settle the indicator. -/
theorem Indicator.isSome_of_mem_drop_history {i : Indicator} (hpos : 1 ≤ i.period)
    {bars : List (Bar α)} {limit : Nat}
    (h : limit + i.period * i.kind.multiplier ≤ bars.length) {p : Point α}
    (hp : p ∈ (i.history bars).drop ((i.history bars).length - limit)) : p.value.isSome := by
  have hneeded := barsNeeded_le hpos
  obtain ⟨n, hpoint⟩ := List.mem_iff_getElem?.1 hp
  rw [List.getElem?_drop, i.length_history] at hpoint
  have hplace : bars.length - limit + n < bars.length := by
    obtain ⟨hplace, -⟩ := List.getElem?_eq_some_iff.1 hpoint
    rwa [i.length_history] at hplace
  have hvalue := (isSome_history_iff (i := i) hplace).2 ⟨hpos, by omega⟩
  rwa [hpoint, Option.bind_some] at hvalue

namespace Command

/-- The indicators that are read have a period. -/
theorem period_pos_of_readIndicator {text : String} {i : Indicator}
    (h : readIndicator text = .ok i) : 1 ≤ i.period := by
  unfold readIndicator at h
  split at h
  · cases h
  · rename_i f args hread
    cases hcall : (resolveCall f args : Except (VocabularyError Float) Indicator) with
    | error e =>
      rw [hcall] at h
      cases h
    | ok j =>
      rw [hcall] at h
      cases h
      exact Expr.period_pos hcall
  · cases h

/-- A history that is there is shown. -/
theorem run_history_of_fetch {read : FileReader Id} {data symbol text : String} {limit : Nat}
    {i : Indicator} {s : Series Float} (hread : readIndicator text = .ok i)
    (hfetch : Id.run (Prices.fetch read data (historyRequest symbol i limit)) = .ok s) :
    Id.run (Command.run read (.history data symbol text limit)) =
      ⟨0, Report.history symbol i
        ((i.history s.bars).drop ((i.history s.bars).length - limit)), ""⟩ := by
  have hshown := showHistory_eq read data symbol text limit
  rw [hread] at hshown
  dsimp only at hshown
  rw [hfetch] at hshown
  exact congrArg Ended.of hshown

/-- For an indicator that can be read and a file with rows that all hold bars, a history is shown
under a heading, with one line that tells of each point: the newest ones, as many as are asked for
or as there are, in the order of their moments. If the file has as many bars as are asked for and as
settle the indicator before them, each of these points has a value, and no line ends in the minus of
a missing one. Counts are of 64 bits. -/
theorem history_shows_newest_points (read : FileReader Id) (data symbol text : String) (limit : Nat)
    (i : Indicator) (bytes : List UInt8) (rows : List (Bar Float))
    (hread : readIndicator text = .ok i) (hlimit : limit ≤ maxCount)
    (hplain : Prices.IsPlain symbol)
    (hfile : Id.run (read (joinPath data (symbol ++ ".csv"))) = .ok bytes)
    (hrows : Prices.FileHolds bytes rows) (hne : rows ≠ []) :
    ∃ sorted window points lines, Series.StablySorted rows sorted ∧ window <:+ sorted ∧
      points <:+ i.history window ∧ List.Forall₂ Report.TellsPoint points lines ∧
      Id.run (Command.run read (.history data symbol text limit)) =
        ⟨0, symbol ++ " " ++ i.text ++ "\n" ++ String.join lines, ""⟩ ∧
      points.length = min limit rows.length ∧
      points.map Point.time = (sorted.drop (rows.length - limit)).map Bar.time ∧
      (rows.length ≤ maxCount → limit + i.period * i.kind.multiplier ≤ rows.length →
        (∀ p ∈ points, p.value.isSome) ∧ ∀ line ∈ lines, ¬ ['-', '\n'] <:+ line.toList) := by
  let sorted := Series.ofBars symbol rows
  let request := historyRequest symbol i limit
  let window := sorted.newest request.days
  have hsorted := Series.stablySorted_ofBars symbol rows
  have hcount : sorted.bars.length = rows.length := hsorted.perm.length_eq
  have hwindow : window.bars.length = min request.days rows.length := by
    rw [Series.length_newest, hcount]
  have hdays : request.days =
      min (limit + min (i.period * i.kind.multiplier) maxCount) maxCount := rfl
  have hfetch : Id.run (Prices.fetch read data request) = .ok window :=
    Prices.fetch_of_fileHolds hplain hfile hrows hne request.days
  have hshown := run_history_of_fetch hread hfetch
  refine ⟨sorted.bars, window.bars, _, _, hsorted, Series.isSuffix_newest _ _,
    List.drop_suffix _ _, Report.forall₂_tellsPoint _, hshown, ?_, ?_, fun hfits henough => ?_⟩
  · rw [i.length_drop_history, hwindow]
    omega
  · rw [i.map_time_drop_history, ← hcount]
    -- Not fewer bars are read than are shown.
    have hshorter : window.newest limit = sorted.newest limit := by
      rw [Series.newest_newest, min_eq_left (by omega)]
    exact congrArg (fun s : Series Float => s.bars.map Bar.time) hshorter
  · have hsettled : limit + i.period * i.kind.multiplier ≤ window.bars.length := by
      rw [hwindow]
      omega
    have hvalue : ∀ p ∈ (i.history window.bars).drop ((i.history window.bars).length - limit),
        p.value.isSome := fun p hp =>
      i.isSome_of_mem_drop_history (period_pos_of_readIndicator hread) hsettled hp
    exact ⟨hvalue, List.forall_mem_map.2 fun p hp =>
      (Report.tellsPoint_point p).not_isSuffix (hvalue p hp)⟩

/-- A file with three rows, the newest one first. -/
def threeRows : List UInt8 :=
  Text.Utf8.encode ("datetime,open,high,low,close,volume\n2024-01-03,3,3,3,3,300\n" ++
    "2024-01-02,2,2,2,2,200\n2024-01-01,1,1,1,1,100\n").toList

/-- Of the mean over one day, the point of the newest of three days is shown, with its value. -/
theorem history_shows_newest_points_mean :
    let ended := Id.run
      (Command.run (fun _ => pure (.ok threeRows)) (.history "data" "ABC" "SMA(1)" 1))
    ended = ⟨0, "ABC SMA(1)\n2024-01-03 00:00  3.0000\n", ""⟩ ∧
    ∃ (p : Point Float) (line : String), p.value.isSome ∧ Report.TellsPoint p line ∧
      ¬ ['-', '\n'] <:+ line.toList ∧ ended = ⟨0, "ABC SMA(1)\n" ++ line, ""⟩ := by
  have hread : (readIndicator "SMA(1)").toOption = some ⟨.sma, 1⟩ := by decide +kernel
  have hplain : Prices.IsPlain "ABC" := Prices.isFileName_iff.1 (by decide)
  have hbars : (Prices.bars "" threeRows).toOption.any (fun rows => rows.length = 3 ∧
      (rows.Pairwise fun a b => b.time.rank < a.time.rank) ∧
      let points := Indicator.history ⟨.sma, 1⟩ ((Series.ofNewestFirst "ABC" rows).newest 3).bars
      Report.history "ABC" ⟨.sma, 1⟩ (points.drop (points.length - 1)) =
        "ABC SMA(1)\n2024-01-03 00:00  3.0000\n") = true := by
    decide +kernel
  obtain ⟨rows, hrows, hall⟩ := (Option.any_eq_true _ _).1 hbars
  obtain ⟨hlength, hnewest, hliteral⟩ := of_decide_eq_true hall
  have hholds := Prices.fileHolds_of_toOption hrows
  have hne : rows ≠ [] := List.ne_nil_of_length_pos (by omega)
  cases hi : readIndicator "SMA(1)" with
  | error e =>
    rw [hi] at hread
    cases hread
  | ok i =>
    rw [hi] at hread
    cases hread
    have hfetch : Id.run (Prices.fetch (fun _ => pure (.ok threeRows)) "data"
        (historyRequest "ABC" ⟨.sma, 1⟩ 1)) = .ok ((Series.ofBars "ABC" rows).newest 3) :=
      Prices.fetch_of_fileHolds hplain rfl hholds hne 3
    have hshown := run_history_of_fetch hi hfetch
    rw [← Series.ofNewestFirst_eq_ofBars "ABC" hnewest, hliteral] at hshown
    obtain ⟨-, -, points, lines, -, -, -, htells, hout, hcount, -, hvalid⟩ :=
      history_shows_newest_points (fun _ => pure (.ok threeRows)) "data" "ABC" "SMA(1)" 1 ⟨.sma, 1⟩
        threeRows rows hi (by decide) hplain rfl hholds hne
    rw [hlength] at hcount hvalid
    obtain ⟨hvalues, hends⟩ := hvalid (by decide) (by decide)
    obtain ⟨p, rfl⟩ := List.length_eq_one_iff.1 hcount
    obtain ⟨line, rest, hline, hrest, rfl⟩ := List.forall₂_cons_left_iff.1 htells
    cases hrest
    have hheading : "ABC" ++ " " ++ (⟨.sma, 1⟩ : Indicator).text ++ "\n" = "ABC SMA(1)\n" := by
      decide +kernel
    have hjoin : String.join [line] = line := by simp [String.join]
    rw [hheading, hjoin] at hout
    exact ⟨hshown, p, line, hvalues p List.mem_cons_self, hline, hends line List.mem_cons_self, hout⟩

end Command

end TradeRules
