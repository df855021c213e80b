import TradeRules.Text.Blank
import TradeRules.Number.Decimal

/-!
# Moments

A moment is a second of the proleptic Gregorian calendar, with a place for a leap second in every
minute. It is read from a date with or without a time of day; the reading is lenient about blanks
before each number and about the number of digits, and strict about everything else.
-/

namespace TradeRules

open Text Number

namespace Calendar

/-- Whether a year has a leap day. -/
def isLeap (year : Int) : Bool :=
  year % 4 == 0 && (year % 100 != 0 || year % 400 == 0)

/-- The number of days in a month; there is none in a month that does not exist. -/
def daysInMonth (year : Int) (month : Nat) : Nat :=
  if month == 2 then (if isLeap year then 29 else 28)
  else if month == 4 || month == 6 || month == 9 || month == 11 then 30
  else if 1 ≤ month && month ≤ 12 then 31
  else 0

/-- Whether a date exists, within the years that are kept. -/
def isDate (year : Int) (month day : Nat) : Bool :=
  -262143 ≤ year && year ≤ 262142 && 1 ≤ day && day ≤ daysInMonth year month

/-- Whether a time of day exists; the second 60 is a leap second. -/
def isTime (hour minute second : Nat) : Bool := hour < 24 && minute < 60 && second ≤ 60

theorem daysInMonth_le (year : Int) (month : Nat) : daysInMonth year month ≤ 31 := by
  unfold daysInMonth
  split
  · split <;> omega
  · split
    · omega
    · split <;> omega

theorem month_le_of_isDate {year : Int} {month day : Nat} (h : isDate year month day = true) :
    month ≤ 12 := by
  simp only [isDate, daysInMonth, Bool.and_eq_true, decide_eq_true_eq] at h
  obtain ⟨⟨⟨_, _⟩, h1⟩, h2⟩ := h
  split at h2
  · simp_all
  · split at h2
    · simp_all
      omega
    · split at h2 <;> simp_all

end Calendar

/-- A second of the calendar. -/
structure Moment where
  /-- The year, with a year zero and negative years before it. -/
  year : Int
  /-- The month, from 1. -/
  month : Nat
  /-- The day of the month, from 1. -/
  day : Nat
  /-- The hour, from 0. -/
  hour : Nat
  /-- The minute, from 0. -/
  minute : Nat
  /-- The second, from 0, where 60 is a leap second. -/
  second : Nat
  /-- The day exists. -/
  isDate : Calendar.isDate year month day = true
  /-- The time of day exists. -/
  isTime : Calendar.isTime hour minute second = true
  deriving DecidableEq, Repr

namespace Moment

/-- The moment with the given fields, if it exists. -/
def of? (year : Int) (month day hour minute second : Nat) : Option Moment :=
  if h : Calendar.isDate year month day = true then
    if h' : Calendar.isTime hour minute second = true then
      some ⟨year, month, day, hour, minute, second, h, h'⟩
    else none
  else none

/-- A number that grows with the moment: the fields as digits of a mixed radix. -/
def rank (t : Moment) : Int :=
  ((((t.year * 13 + t.month) * 32 + t.day) * 24 + t.hour) * 60 + t.minute) * 61 + t.second

/-- Different moments have different ranks. -/
theorem rank_injective {s t : Moment} (h : s.rank = t.rank) : s = t := by
  obtain ⟨y, mo, d, h1, mi, se, hd, ht⟩ := s
  obtain ⟨y', mo', d', h1', mi', se', hd', ht'⟩ := t
  have hm := Calendar.month_le_of_isDate hd
  have hm' := Calendar.month_le_of_isDate hd'
  have hx := Calendar.daysInMonth_le y mo
  have hx' := Calendar.daysInMonth_le y' mo'
  have hdd : d ≤ Calendar.daysInMonth y mo := by
    simp only [Calendar.isDate, Bool.and_eq_true, decide_eq_true_eq] at hd
    exact hd.2
  have hdd' : d' ≤ Calendar.daysInMonth y' mo' := by
    simp only [Calendar.isDate, Bool.and_eq_true, decide_eq_true_eq] at hd'
    exact hd'.2
  simp only [Calendar.isTime, Bool.and_eq_true, decide_eq_true_eq] at ht ht'
  simp only [rank] at h
  obtain rfl : y = y' := by omega
  obtain rfl : mo = mo' := by omega
  obtain rfl : d = d' := by omega
  obtain rfl : h1 = h1' := by omega
  obtain rfl : mi = mi' := by omega
  obtain rfl : se = se' := by omega
  rfl

/-- Calendar order. -/
def notAfter (s t : Moment) : Bool := s.rank ≤ t.rank

/-- A number of at most `width` digits, and what follows it. -/
def readDigits? (width : Nat) (cs : List Char) : Option (Nat × List Char) :=
  let digits := (cs.take width).takeWhile Char.isDigit
  if digits = [] then none else some (Decimal.value digits, cs.drop digits.length)

/-- A number after optional blanks, of at most `width` digits, and what follows it. -/
def readField? (width : Nat) (cs : List Char) : Option (Nat × List Char) :=
  readDigits? width (trimStart cs)

/-- A year after optional blanks: four digits at most, or a sign and any number of digits. -/
def readYear? (cs : List Char) : Option (Int × List Char) :=
  match trimStart cs with
  | '-' :: rest => (readDigits? rest.length rest).map fun (n, rest) => (-(n : Int), rest)
  | '+' :: rest => (readDigits? rest.length rest).map fun (n, rest) => ((n : Int), rest)
  | cs => (readDigits? 4 cs).map fun (n, rest) => ((n : Int), rest)

/-- What follows a given character. -/
def skip? (c : Char) : List Char → Option (List Char)
  | [] => none
  | d :: rest => if d = c then some rest else none

/-- Year, month and day, and what follows them. -/
def readDate? (cs : List Char) : Option ((Int × Nat × Nat) × List Char) := do
  let (year, cs) ← readYear? cs
  let cs ← skip? '-' cs
  let (month, cs) ← readField? 2 cs
  let cs ← skip? '-' cs
  let (day, cs) ← readField? 2 cs
  return ((year, month, day), cs)

/-- Hour, minute and second, and what follows them. -/
def readTime? (cs : List Char) : Option ((Nat × Nat × Nat) × List Char) := do
  let (hour, cs) ← readField? 2 cs
  let cs ← skip? ':' cs
  let (minute, cs) ← readField? 2 cs
  let cs ← skip? ':' cs
  let (second, cs) ← readField? 2 cs
  return ((hour, minute, second), cs)

/-- The moment that a whole text names; a date alone means its midnight. -/
def read? (cs : List Char) : Option Moment :=
  match readDate? cs with
  | none => none
  | some ((year, month, day), []) => of? year month day 0 0 0
  | some ((year, month, day), rest) =>
    match readTime? rest with
    | some ((hour, minute, second), []) => of? year month day hour minute second
    | _ => none

/-- The year in four digits, or with a sign where four digits do not hold it. -/
def yearText (year : Int) : List Char :=
  if 0 ≤ year ∧ year ≤ 9999 then Decimal.padded 4 year.toNat
  else (if year < 0 then '-' else '+') :: Decimal.padded 4 year.natAbs

/-- The date, as in `2024-03-01`. -/
def dateText (t : Moment) : List Char :=
  yearText t.year ++ '-' :: Decimal.padded 2 t.month ++ '-' :: Decimal.padded 2 t.day

/-- Date, hour and minute, as in `2024-03-01 09:30`. -/
def minuteText (t : Moment) : List Char :=
  t.dateText ++ ' ' :: Decimal.padded 2 t.hour ++ ':' :: Decimal.padded 2 t.minute

/-- Date and time of day, as in `2024-03-01 09:30:00`. -/
def text (t : Moment) : List Char := t.minuteText ++ ':' :: Decimal.padded 2 t.second

example : (read? "2024-3-1 9:30:60".toList).map text = some "2024-03-01 09:30:60".toList := by
  decide
example : read? "2023-02-29".toList = none := by decide

end Moment

end TradeRules
