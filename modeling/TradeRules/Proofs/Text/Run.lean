import Mathlib
import TradeRules.Text.Blank

/-!
# Runs of characters

Readers cut a text where a class of characters ends. A run of the class is cut off whole exactly
where what follows it starts outside the class; `trimStart` is that cut for the class of blanks.
-/

namespace TradeRules.Text

variable {p : Char → Bool} {w r : List Char}

/-- A run that ends where it should is the longest one. -/
theorem takeWhile_append_of_stop (hw : w.all p = true) (hr : r.head?.any p = false) :
    (w ++ r).takeWhile p = w := by
  rw [List.takeWhile_append_of_pos (List.all_eq_true.1 hw)]
  cases r with
  | nil => simp
  | cons c cs =>
    have hc : p c = false := by simpa using hr
    simp [hc]

/-- What follows such a run is left untouched. -/
theorem dropWhile_append_of_stop (hw : w.all p = true) (hr : r.head?.any p = false) :
    (w ++ r).dropWhile p = r := by
  rw [List.dropWhile_append_of_pos (List.all_eq_true.1 hw)]
  cases r with
  | nil => rfl
  | cons c cs =>
    have hc : p c = false := by simpa using hr
    simp [hc]

/-- What follows the longest run starts outside the class. -/
theorem any_head?_dropWhile (p : Char → Bool) (cs : List Char) :
    (cs.dropWhile p).head?.any p = false := by
  have h := List.head?_dropWhile_not p cs
  cases hd : (cs.dropWhile p).head? with
  | none => rfl
  | some c =>
    rw [hd] at h
    simpa using h

/-- Leading blanks are dropped once and for all. -/
@[simp] theorem trimStart_trimStart (cs : List Char) : trimStart (trimStart cs) = trimStart cs := by
  have h := dropWhile_append_of_stop (p := isBlank) (w := []) rfl (any_head?_dropWhile isBlank cs)
  exact h

/-- A leading blank does not count. -/
@[simp] theorem trimStart_cons_of_isBlank {b : Char} (hb : isBlank b = true) (cs : List Char) :
    trimStart (b :: cs) = trimStart cs :=
  List.dropWhile_cons_of_pos hb

/-- A text that starts with no blank is kept. -/
theorem trimStart_of_head (h : r.head?.any isBlank = false) : trimStart r = r :=
  dropWhile_append_of_stop (w := []) rfl h

end TradeRules.Text
