import TradeRules.Market.Moment
import TradeRules.Proofs.Number.ReadBack

/-!
# Moments that read back

Every field of a moment is written in digits, and something else follows it, so that the fields are
cut where they were joined: a moment is read from its own text (`Moment.read?_text`).
-/

namespace TradeRules

open Text Number

/-- Leading zeros do not count. -/
theorem Number.Decimal.value_padded (width n : Nat) : value (padded width n) = n := by
  rw [value, padded, Nat.ofDigitChars_append, Nat.ofDigitChars_replicate_zero, Nat.mul_zero,
    Nat.ofDigitChars_ten_toDigits]

/-- Zeros and digits are a text. -/
theorem Number.Decimal.padded_ne_nil (width n : Nat) : padded width n ≠ [] :=
  List.append_ne_nil_of_right_ne_nil _ Nat.toDigits_ne_nil

/-- A text that starts with a digit starts with no blank. -/
theorem Text.trimStart_of_isDigit {c : Char} (h : c.isDigit = true) (cs : List Char) :
    trimStart (c :: cs) = c :: cs := by
  obtain ⟨hlow, hhigh⟩ : 48 ≤ c.toNat ∧ c.toNat ≤ 57 := Char.isDigit_iff_toNat.1 h
  refine List.dropWhile_cons_of_neg fun hblank => ?_
  simp only [isBlank, Bool.or_eq_true, Bool.and_eq_true, decide_eq_true_eq, beq_iff_eq] at hblank
  omega

namespace Moment

variable {width n : Nat} {rest : List Char}

/-- A padded number starts with a digit. -/
theorem exists_padded_eq_cons (width n : Nat) :
    ∃ c cs, Decimal.padded width n = c :: cs ∧ c.isDigit = true := by
  obtain ⟨c, cs, hcs⟩ := List.exists_cons_of_ne_nil (Decimal.padded_ne_nil width n)
  have hdigits := List.all_eq_true.1 (Decimal.all_isDigit_padded width n)
  rw [hcs] at hdigits
  exact ⟨c, cs, hcs, hdigits c List.mem_cons_self⟩

/-- A number is read up to what follows it, if that is no digit. -/
theorem readDigits?_padded {most : Nat} (hmost : (Decimal.padded width n).length ≤ most)
    (hrest : rest.head?.any Char.isDigit = false) :
    readDigits? most (Decimal.padded width n ++ rest) = some (n, rest) := by
  have hstop : (rest.take (most - (Decimal.padded width n).length)).head?.any Char.isDigit =
      false := by
    rw [List.head?_take]
    split
    · rfl
    · exact hrest
  have hdigits : ((Decimal.padded width n ++ rest).take most).takeWhile Char.isDigit =
      Decimal.padded width n := by
    rw [List.take_append, List.take_of_length_le hmost]
    exact takeWhile_append_of_stop (Decimal.all_isDigit_padded width n) hstop
  unfold readDigits?
  dsimp only
  rw [hdigits, if_neg (Decimal.padded_ne_nil width n), Decimal.value_padded, List.drop_left]

/-- A field of two digits is read up to what follows it, if that is no digit. -/
theorem readField?_padded (hn : n < 100) (hrest : rest.head?.any Char.isDigit = false) :
    readField? 2 (Decimal.padded 2 n ++ rest) = some (n, rest) := by
  have hfits : (Decimal.padded 2 n).length ≤ 2 :=
    Nat.le_of_eq (Decimal.length_padded (by decide) hn)
  have hdigits := readDigits?_padded hfits hrest
  obtain ⟨c, cs, hpadded, hc⟩ := exists_padded_eq_cons 2 n
  rw [hpadded, List.cons_append] at hdigits ⊢
  rw [readField?, trimStart_of_isDigit hc, hdigits]

/-- A year of four digits is read up to what follows it. -/
theorem readYear?_padded (hn : n ≤ 9999) (hrest : rest.head?.any Char.isDigit = false) :
    readYear? (Decimal.padded 4 n ++ rest) = some ((n : Int), rest) := by
  have hfits : (Decimal.padded 4 n).length ≤ 4 :=
    Nat.le_of_eq (Decimal.length_padded (by decide) (Nat.lt_succ_of_le hn))
  have hdigits := readDigits?_padded hfits hrest
  obtain ⟨c, cs, hpadded, hc⟩ := exists_padded_eq_cons 4 n
  rw [hpadded, List.cons_append] at hdigits ⊢
  rw [readYear?, trimStart_of_isDigit hc]
  -- A digit is none of the two signs.
  split
  · rename_i heq
    cases heq
    cases hc
  · rename_i heq
    cases heq
    cases hc
  · rw [hdigits, Option.map_some]

/-- A year with a sign is read up to what follows it. -/
theorem readYear?_signed (width n : Nat) (hrest : rest.head?.any Char.isDigit = false) :
    readYear? ('-' :: (Decimal.padded width n ++ rest)) = some (-(n : Int), rest) ∧
      readYear? ('+' :: (Decimal.padded width n ++ rest)) = some ((n : Int), rest) := by
  have hdigits : readDigits? (Decimal.padded width n ++ rest).length
      (Decimal.padded width n ++ rest) = some (n, rest) :=
    readDigits?_padded (by rw [List.length_append]; exact Nat.le_add_right _ _) hrest
  have hminus : readYear? ('-' :: (Decimal.padded width n ++ rest)) =
      (readDigits? (Decimal.padded width n ++ rest).length (Decimal.padded width n ++ rest)).map
        fun field => (-(field.1 : Int), field.2) := rfl
  have hplus : readYear? ('+' :: (Decimal.padded width n ++ rest)) =
      (readDigits? (Decimal.padded width n ++ rest).length (Decimal.padded width n ++ rest)).map
        fun field => ((field.1 : Int), field.2) := rfl
  rw [hminus, hplus, hdigits]
  exact ⟨rfl, rfl⟩

/-- A year is read up to what follows it, if that is no digit. -/
theorem readYear?_yearText (year : Int) (hrest : rest.head?.any Char.isDigit = false) :
    readYear? (yearText year ++ rest) = some (year, rest) := by
  unfold yearText
  split
  · rename_i hyear
    obtain ⟨n, rfl⟩ := Int.eq_ofNat_of_zero_le hyear.1
    exact readYear?_padded (Int.ofNat_le.1 hyear.2) hrest
  · rw [List.cons_append]
    obtain ⟨hminus, hplus⟩ := readYear?_signed 4 year.natAbs hrest
    split
    · rename_i hnegative
      rw [hminus, Int.ofNat_natAbs_of_nonpos (Int.le_of_lt hnegative), Int.neg_neg]
    · rename_i hpositive
      rw [hplus, Int.natAbs_of_nonneg (Int.le_of_not_gt hpositive)]

/-- A mark is passed. -/
theorem skip?_cons_self (c : Char) (cs : List Char) : skip? c (c :: cs) = some cs := if_pos rfl

/-- A month and a day have two digits at most. -/
theorem month_day_lt (t : Moment) : t.month < 100 ∧ t.day < 100 := by
  have hmonth := Calendar.month_le_of_isDate t.isDate
  have hdays := Calendar.daysInMonth_le t.year t.month
  have hdate := t.isDate
  simp only [Calendar.isDate, Bool.and_eq_true, decide_eq_true_eq] at hdate
  omega

/-- An hour, a minute and a second have two digits at most. -/
theorem time_lt (t : Moment) : t.hour < 100 ∧ t.minute < 100 ∧ t.second < 100 := by
  have htime := t.isTime
  simp only [Calendar.isTime, Bool.and_eq_true, decide_eq_true_eq] at htime
  omega

/-- A date is read up to what follows it, if that is no digit. -/
theorem readDate?_dateText (t : Moment) (hrest : rest.head?.any Char.isDigit = false) :
    readDate? (t.dateText ++ rest) = some ((t.year, t.month, t.day), rest) := by
  obtain ⟨hmonth, hday⟩ := t.month_day_lt
  have hmonth : readField? 2 (Decimal.padded 2 t.month ++ '-' :: (Decimal.padded 2 t.day ++ rest)) =
      some (t.month, '-' :: (Decimal.padded 2 t.day ++ rest)) := readField?_padded hmonth rfl
  rw [dateText, List.append_assoc, List.cons_append, List.append_assoc, List.cons_append, readDate?,
    readYear?_yearText t.year rfl]
  simp only [Option.bind_eq_bind, Option.bind_some, skip?_cons_self, hmonth,
    readField?_padded hday hrest]
  rfl

/-- The time of day, as in `09:30:00`. -/
def timeText (t : Moment) : List Char :=
  Decimal.padded 2 t.hour ++
    ':' :: (Decimal.padded 2 t.minute ++ ':' :: Decimal.padded 2 t.second)

/-- The text of a moment is its date and its time of day. -/
theorem text_eq (t : Moment) : t.text = t.dateText ++ ' ' :: t.timeText := by
  simp only [text, minuteText, timeText, List.append_assoc, List.cons_append]

/-- A time of day is read to its end, also behind a blank. -/
theorem readTime?_timeText (t : Moment) :
    readTime? (' ' :: t.timeText) = some ((t.hour, t.minute, t.second), []) := by
  obtain ⟨hhour, hminute, hsecond⟩ := t.time_lt
  have hblank : ∀ cs, readField? 2 (' ' :: cs) = readField? 2 cs := fun _ => rfl
  have hminute : readField? 2 (Decimal.padded 2 t.minute ++ ':' :: Decimal.padded 2 t.second) =
      some (t.minute, ':' :: Decimal.padded 2 t.second) := readField?_padded hminute rfl
  have hsecond : readField? 2 (Decimal.padded 2 t.second ++ []) = some (t.second, []) :=
    readField?_padded hsecond rfl
  rw [List.append_nil] at hsecond
  rw [timeText, readTime?, hblank, readField?_padded hhour rfl]
  simp only [Option.bind_eq_bind, Option.bind_some, skip?_cons_self, hminute, hsecond]
  rfl

/-- A moment is read from its own text. -/
theorem read?_text (t : Moment) : read? t.text = some t := by
  have hdate : readDate? (t.dateText ++ ' ' :: t.timeText) =
      some ((t.year, t.month, t.day), ' ' :: t.timeText) := t.readDate?_dateText rfl
  rw [text_eq, read?, hdate]
  dsimp only
  rw [readTime?_timeText]
  exact (dif_pos t.isDate).trans (dif_pos t.isTime)

end Moment

end TradeRules
