import Mathlib
import TradeRules.Text.Utf8

/-!
# Lines and columns

A text is cut into lines at its line feeds, by `List.splitOn`. The column of a place counts the
characters between the start of its line and the place. There are never fewer bytes before the place
than that, and just as many only on the first line behind characters of one byte
(`Text.utf8Length_eq_column_iff`).
-/

namespace TradeRules.Text

/-- A text is one line if no line feed stands in it. -/
def IsLine (s : String) : Prop := '\n' ∉ s.toList

instance : DecidablePred IsLine := fun s => inferInstanceAs (Decidable ('\n' ∉ s.toList))

/-- A text is one line if both its halves are. -/
@[simp] theorem isLine_append {s t : String} : IsLine (s ++ t) ↔ IsLine s ∧ IsLine t := by
  simp [IsLine, not_or]

theorem isLine_ofList {cs : List Char} : IsLine (String.ofList cs) ↔ '\n' ∉ cs := by
  simp [IsLine]

/-- A natural is written on one line. -/
@[simp] theorem isLine_repr (n : Nat) : IsLine n.repr := by
  intro h
  rw [Nat.toList_repr] at h
  exact absurd (Nat.isDigit_of_mem_toDigits (by decide) (by decide) h) (by decide)

/-- How many characters stand behind the last line feed of a text. -/
def column (before : List Char) : Nat := (before.rtakeWhile (· ≠ '\n')).length

/-- A line feed ends a line and starts another. -/
theorem splitOn_append_lineFeed (cs ds : List Char) :
    (cs ++ '\n' :: ds).splitOn '\n' = cs.splitOn '\n' ++ ds.splitOn '\n' :=
  List.splitOnP_append_cons cs ds (beq_self_eq_true '\n')

/-- There is one more line than line feeds. -/
theorem length_splitOn_lineFeed (cs : List Char) :
    (cs.splitOn '\n').length = cs.count '\n' + 1 := by
  induction cs with
  | nil => rfl
  | cons c cs ih =>
    by_cases hc : c = '\n'
    · have hcut := splitOn_append_lineFeed [] cs
      rw [List.nil_append] at hcut
      rw [hc, hcut, List.length_append, ih, List.count_cons_self]
      simp [Nat.add_comm]
    · rw [List.count_cons_of_ne hc, ← ih, List.splitOn, List.splitOnP_cons_eq_if_modifyHead,
        if_neg (by simpa using hc), List.length_modifyHead, List.splitOn]

/-- Texts have at least as many lines as there are texts. -/
theorem length_le_length_flatMap_splitOn (rows : List (List Char)) :
    rows.length ≤ (rows.flatMap (·.splitOn '\n')).length := by
  induction rows with
  | nil => exact Nat.le_refl 0
  | cons row rows ih =>
    rw [List.flatMap_cons, List.length_append, length_splitOn_lineFeed, List.length_cons]
    omega

/-- Texts are their own lines exactly if each of them is one line. -/
theorem flatMap_splitOn_eq_self_iff (rows : List (List Char)) :
    rows.flatMap (·.splitOn '\n') = rows ↔ ∀ row ∈ rows, '\n' ∉ row := by
  induction rows with
  | nil => simp
  | cons row rows ih =>
    rw [List.flatMap_cons, List.forall_mem_cons]
    constructor
    · intro h
      -- A row with a line feed would leave too few places for the lines of the others.
      have hlength := congrArg List.length h
      have hrows := length_le_length_flatMap_splitOn rows
      rw [List.length_append, length_splitOn_lineFeed, List.length_cons] at hlength
      have hrow : '\n' ∉ row := List.count_eq_zero.1 (by omega)
      rw [List.splitOn_eq_singleton hrow] at h
      exact ⟨hrow, ih.1 (List.cons.inj h).2⟩
    · rintro ⟨hrow, hrows⟩
      rw [List.splitOn_eq_singleton hrow, ih.2 hrows, List.singleton_append]

/-- Texts that are written with a line feed behind each of them come before the lines of what
follows. -/
theorem splitOn_flatMap_append (rows : List (List Char)) (rest : List Char) :
    (rows.flatMap (· ++ ['\n']) ++ rest).splitOn '\n' =
      rows.flatMap (·.splitOn '\n') ++ rest.splitOn '\n' := by
  induction rows with
  | nil => rfl
  | cons row rows ih =>
    rw [List.flatMap_cons, List.append_assoc, List.append_assoc, List.singleton_append,
      splitOn_append_lineFeed, ih, List.flatMap_cons, List.append_assoc]

/-- Every character takes a byte at least. -/
theorem length_le_utf8Length (cs : List Char) : cs.length ≤ Utf8.length cs := by
  induction cs with
  | nil => exact Nat.le_refl 0
  | cons c cs ih =>
    have hc := c.utf8Size_pos
    simp only [Utf8.length, List.length_cons]
    omega

/-- There are as many bytes as characters where every character takes just one. -/
theorem utf8Length_eq_length_iff (cs : List Char) :
    Utf8.length cs = cs.length ↔ ∀ c ∈ cs, c.utf8Size = 1 := by
  induction cs with
  | nil => simp [Utf8.length]
  | cons c cs ih =>
    have hc := c.utf8Size_pos
    have hcs := length_le_utf8Length cs
    rw [List.forall_mem_cons, ← ih, Utf8.length, List.length_cons]
    omega

/-- The bytes of a text are those up to its last line feed and those behind it. -/
theorem utf8Length_eq_add (before : List Char) :
    Utf8.length before = Utf8.length (before.rdropWhile (· ≠ '\n')) +
      Utf8.length (before.rtakeWhile (· ≠ '\n')) := by
  rw [← Utf8.length_append, List.rdropWhile_append_rtakeWhile]

/-- The column of a place is never beyond its byte. -/
theorem column_le_utf8Length (before : List Char) : column before ≤ Utf8.length before := by
  have hline := length_le_utf8Length (before.rtakeWhile (· ≠ '\n'))
  rw [utf8Length_eq_add, column]
  omega

/-- The column of a place is its byte just on the first line, behind characters of one byte. -/
theorem utf8Length_eq_column_iff (before : List Char) :
    Utf8.length before = column before ↔ ∀ c ∈ before, c ≠ '\n' ∧ c.utf8Size = 1 := by
  constructor
  · intro h
    have hsum := utf8Length_eq_add before
    have hline := length_le_utf8Length (before.rtakeWhile (· ≠ '\n'))
    have hlines := length_le_utf8Length (before.rdropWhile (· ≠ '\n'))
    rw [column] at h
    -- Nothing is left for the lines above, so that there are none.
    have hnone : before.rdropWhile (· ≠ '\n') = [] := List.length_eq_zero_iff.1 (by omega)
    have hfirst : ∀ c ∈ before, c ≠ '\n' := by simpa using List.rdropWhile_eq_nil_iff.1 hnone
    have hall : before.rtakeWhile (· ≠ '\n') = before := by
      rw [List.rtakeWhile_eq_self_iff]
      simpa using hfirst
    rw [hall] at h
    intro c hc
    exact ⟨hfirst c hc, (utf8Length_eq_length_iff before).1 h c hc⟩
  · intro h
    have hall : before.rtakeWhile (· ≠ '\n') = before := by
      rw [List.rtakeWhile_eq_self_iff]
      intro c hc
      simpa using (h c hc).1
    rw [column, hall, utf8Length_eq_length_iff]
    exact fun c hc => (h c hc).2

end TradeRules.Text
