import TradeRules.Proofs.Command.Wording
import TradeRules.Proofs.Market.Stamp
import TradeRules.Proofs.Number.FixedPlaces

/-!
# What the lines of a report tell

The line of an entry tells the name and the symbol of its rule, in columns, and then what became of
the rule: the wording of an error, or the price and, where there is a trade, its size, its worth and
the change of cash (`Report.tells_iff`). The line of a point tells its minute and its value, or that
it has none (`Report.tellsPoint_point`). Amounts and values are given by the decimals nearest to
them, and minutes by a text that reads back.
-/

namespace TradeRules

open Text Number

/-- A line feed behind a text is the only one exactly if the text is one line. -/
theorem Text.count_lineFeed_append (s : String) :
    (s ++ "\n").toList.count '\n' = 1 ↔ IsLine s := by
  rw [String.toList_append, List.count_append]
  exact Nat.succ_inj.trans List.count_eq_zero

namespace Report

/-- A text stands in a column: blanks behind it fill the width, unless the text is longer. -/
def InColumn (width : Nat) (s t : String) : Prop :=
  ∃ blanks, t = s ++ String.ofList (List.replicate blanks ' ') ∧
    s.length + blanks = max width s.length

/-- A text gives a double with a number of places; `plus` stands before what is not negative. -/
def Gives (places : Nat) (plus : List Char) (x : Float) (t : String) : Prop :=
  Binary64.Shows places plus x t.toList

/-- A text tells what became of a rule. -/
inductive TellsVerdict (rule : Rule) : Verdict Float → String → Prop
  /-- It failed, for a reason. -/
  | failed (e : JudgeError Float) : TellsVerdict rule (.error e) ("ERROR " ++ e.message)
  /-- It did not fire, at a price. -/
  | idle {price : Float} {amount : String} (hamount : Gives 2 [] price amount) :
    TellsVerdict rule (.ok (.hold price)) ("not triggered @ " ++ amount)
  /-- It fired, for so many shares at a price, worth a total that is paid or received. -/
  | fired {shares : Nat} {price : Float} {amount total change : String}
    (hamount : Gives 2 [] price amount) (htotal : Gives 2 [] (Scalar.ofCount shares * price) total)
    (hchange : Gives 2 ['+'] (rule.action.cashChange (Scalar.ofCount shares * price)) change) :
    TellsVerdict rule (.ok (.trade shares price))
      ("TRIGGERED " ++ rule.action.name ++ " " ++ toString shares ++ " @ " ++ amount ++ " = " ++
        total ++ " (cash " ++ change ++ ")")

/-- A text tells of an entry, and is a single line just if every text that it quotes is one. -/
structure Tells (e : Entry Float) (text : String) : Prop where
  /-- The name and the symbol of the rule come first, and then its verdict. -/
  parts : ∃ name symbol verdict, InColumn 12 e.rule.id name ∧ InColumn 8 e.rule.symbol symbol ∧
    TellsVerdict e.rule e.verdict verdict ∧ text = name ++ " " ++ symbol ++ " " ++ verdict ++ "\n"
  /-- There is no other line feed than the last, unless one is quoted. -/
  feeds : text.toList.count '\n' = 1 ↔ ∀ t ∈ e.quoted, IsLine t

/-- A text tells a value, or that there is none. -/
inductive TellsValue : Option Float → String → Prop
  /-- There is none. -/
  | missing : TellsValue none "-"
  /-- There is one. -/
  | value {x : Float} {t : String} (h : Gives 4 [] x t) : TellsValue (some x) t

/-- A text tells of a point on a single line. -/
structure TellsPoint (p : Point Float) (text : String) : Prop where
  /-- The minute, which the second completes to the moment, comes first, and then the value. -/
  parts : ∃ minute value, Moment.read? (minute ++ ':' :: Decimal.padded 2 p.time.second) =
      some p.time ∧ TellsValue p.value value ∧ text = String.ofList minute ++ "  " ++ value ++ "\n"
  /-- There is no other line feed than the last. -/
  feeds : text.toList.count '\n' = 1

/-- A column holds a text and blanks. -/
theorem inColumn_iff {width : Nat} {s t : String} : InColumn width s t ↔ t = column width s := by
  unfold InColumn column
  constructor
  · rintro ⟨blanks, rfl, hblanks⟩
    have hrest : blanks = width - s.length := by omega
    rw [hrest]
  · rintro rfl
    exact ⟨width - s.length, rfl, by omega⟩

/-- Only what is written of a double gives it. -/
theorem gives_iff {places : Nat} {plus : List Char} {x : Float} {t : String} :
    Gives places plus x t ↔
      t = String.ofList
        (Binary64.spellWith plus (fun w => (Binary64.rounded places w).spell) x) := by
  rw [Gives, Binary64.shows_iff, ← String.toList_inj, String.toList_ofList]

/-- The status of a rule tells its verdict, and nothing else does. -/
theorem tellsVerdict_iff {rule : Rule} {v : Verdict Float} {t : String} :
    TellsVerdict rule v t ↔ t = status rule v := by
  constructor
  · rintro (e | hamount | ⟨hamount, htotal, hchange⟩)
    · rfl
    · rw [gives_iff.1 hamount]
      rfl
    · rw [gives_iff.1 hamount, gives_iff.1 htotal, gives_iff.1 hchange]
      rfl
  · rintro rfl
    rcases v with e | price | ⟨shares, price⟩
    · exact .failed e
    · exact .idle (gives_iff.2 rfl)
    · exact .fired (gives_iff.2 rfl) (gives_iff.2 rfl) (gives_iff.2 rfl)

/-- The line of an entry tells of it, and nothing else does. -/
theorem tells_iff {e : Entry Float} {t : String} : Tells e t ↔ t = entry e := by
  constructor
  · rintro ⟨⟨name, symbol, verdict, hname, hsymbol, hverdict, rfl⟩, -⟩
    rw [inColumn_iff.1 hname, inColumn_iff.1 hsymbol, tellsVerdict_iff.1 hverdict]
    rfl
  · rintro rfl
    refine ⟨⟨_, _, _, inColumn_iff.2 rfl, inColumn_iff.2 rfl, tellsVerdict_iff.2 rfl, rfl⟩, ?_⟩
    exact (count_lineFeed_append (entryText e)).trans (isLine_entryText_iff e)

/-- Each entry has a line that tells of it. -/
theorem forall₂_tells (entries : List (Entry Float)) :
    List.Forall₂ Tells entries (entries.map entry) :=
  List.forall₂_map_right_iff.2 (List.forall₂_same.2 fun _ _ => tells_iff.2 rfl)

/-- A minute is written on one line. -/
theorem lineFeed_notMem_minuteText (t : Moment) : '\n' ∉ t.minuteText := by
  have hpadded : ∀ width n, '\n' ∉ Decimal.padded width n := fun width n h =>
    absurd (List.all_eq_true.1 (Decimal.all_isDigit_padded width n) _ h) (by decide)
  have hyear : '\n' ∉ Moment.yearText t.year := by
    unfold Moment.yearText
    split
    · exact hpadded _ _
    · split <;> simp [hpadded]
  simp [Moment.minuteText, Moment.dateText, hpadded, hyear]

/-- The line of a point tells of it. -/
theorem tellsPoint_point (p : Point Float) : TellsPoint p (point p) := by
  obtain ⟨time, value⟩ := p
  have hminute : IsLine (String.ofList time.minuteText ++ "  ") :=
    isLine_append.2 ⟨isLine_ofList.2 (lineFeed_notMem_minuteText time), by decide⟩
  cases value with
  | none =>
    have hmissing : IsLine "-" := by decide
    refine ⟨⟨time.minuteText, _, time.read?_text, .missing, rfl⟩, ?_⟩
    exact (count_lineFeed_append _).2 (isLine_append.2 ⟨hminute, hmissing⟩)
  | some x =>
    have hvalue : IsLine (String.ofList (Binary64.fixed 4 x)) :=
      isLine_ofList.2 (Binary64.lineFeed_notMem_fixed 4 x)
    refine ⟨⟨time.minuteText, _, time.read?_text, .value (gives_iff.2 rfl), rfl⟩, ?_⟩
    exact (count_lineFeed_append _).2 (isLine_append.2 ⟨hminute, hvalue⟩)

/-- Each point has a line that tells of it. -/
theorem forall₂_tellsPoint (points : List (Point Float)) :
    List.Forall₂ TellsPoint points (points.map point) :=
  List.forall₂_map_right_iff.2 (List.forall₂_same.2 fun p _ => tellsPoint_point p)

/-- What tells of a point with a value does not end in a bare minus. -/
theorem TellsPoint.not_isSuffix {p : Point Float} {t : String} (h : TellsPoint p t)
    (hvalue : p.value.isSome) : ¬ ['-', '\n'] <:+ t.toList := by
  obtain ⟨⟨minute, value, -, htells, rfl⟩, -⟩ := h
  obtain ⟨x, hx⟩ := Option.isSome_iff_exists.1 hvalue
  rw [hx] at htells
  cases htells with
  | value hgives =>
    obtain ⟨cs, c, htext, hc⟩ := Binary64.Shows.exists_last hgives
    have hline : (String.ofList minute ++ "  " ++ value ++ "\n").toList =
        (minute ++ [' ', ' '] ++ cs) ++ [c, '\n'] := by
      simp [htext]
    rw [hline]
    intro hsuffix
    have hlast : ['-', '\n'] <:+ [c, '\n'] :=
      List.suffix_of_suffix_length_le hsuffix (List.suffix_append _ _) (Nat.le_refl 2)
    exact hc (List.cons.inj (hlast.eq_of_length rfl)).1.symm

end Report

end TradeRules
