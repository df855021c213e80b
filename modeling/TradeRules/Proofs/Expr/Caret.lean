import TradeRules.Proofs.Expr.Places
import TradeRules.Proofs.Text.Lines

/-!
# The caret below a text

An error of a text that is no expression is shown with the text, a line with a caret, and the
message. The caret stands as far to the right as there are bytes before the place of the error.
That is the column of the place on the first line, as long as no blank of several bytes stands
before it, and nowhere else (`Expr.caret_of_error`).
-/

namespace TradeRules

open Text

namespace ParseError

/-- A line with a caret behind some blanks. -/
def caretLine (blanks : Nat) : List Char := List.replicate blanks ' ' ++ ['^']

/-- Below the lines of the text stands the line with the caret, and below that the message. -/
theorem splitOn_picture (e : ParseError) (text : String) :
    (e.picture text).toList.splitOn '\n' = text.toList.splitOn '\n' ++
      caretLine e.position :: e.message.toList.splitOn '\n' := by
  have hpicture : (e.picture text).toList =
      text.toList ++ '\n' :: (caretLine e.position ++ '\n' :: e.message.toList) := by
    simp [picture, caretLine]
  have hcaret : (caretLine e.position).splitOn '\n' = [caretLine e.position] :=
    List.splitOn_eq_singleton (by simp [caretLine, List.mem_replicate])
  rw [hpicture, splitOn_append_lineFeed, splitOn_append_lineFeed, hcaret]
  rfl

end ParseError

namespace Expr

variable {α : Type} [Scalar α]

instance (t : List Char) (err : ParseError) :
    Decidable ((parse t : Except ParseError (Expr α)) = .error err) :=
  match (parse t : Except ParseError (Expr α)) with
  | .error e => decidable_of_iff (e = err) ⟨congrArg Except.error, fun h => by cases h; rfl⟩
  | .ok _ => isFalse fun h => by cases h

/-- The caret below a text that is no expression stands as many columns to the right as there are
bytes before the place of the error, where what the error quotes stands. That is never too few
columns, and it is the column of the place exactly if every blank before the place takes one byte
and none of them is a line feed. -/
theorem caret_of_error {text : String} {err : ParseError}
    (h : (ofString text : Except ParseError (Expr α)) = .error err) :
    ∃ before after, text.toList = before ++ after ∧ Utf8.length before = err.position ∧
      err.fault.quoted <+: after ∧
      (err.picture text).toList.splitOn '\n' = text.toList.splitOn '\n' ++
        ParseError.caretLine err.position :: err.message.toList.splitOn '\n' ∧
      column before ≤ err.position ∧
      (err.position = column before ↔
        ∀ c ∈ before, isBlank c = true → c ≠ '\n' ∧ c.utf8Size = 1) := by
  obtain ⟨before, after, htext, hposition, hbefore, hfits⟩ := exists_place_of_parse h
  refine ⟨before, after, htext, hposition, hfits.quoted, err.splitOn_picture text, ?_, ?_⟩
  · rw [← hposition]
    exact column_le_utf8Length before
  · rw [← hposition, utf8Length_eq_column_iff]
    constructor
    · exact fun hall c hc _ => hall c hc
    · intro hall c hc
      by_cases hblank : isBlank c = true
      · exact hall c hc hblank
      · -- What is no blank takes one byte, and a line feed is a blank.
        refine ⟨?_, (hbefore c hc).resolve_right hblank⟩
        rintro rfl
        exact hblank rfl

/-- Behind characters of one byte the caret stands where it should. -/
theorem caret_of_error_second_operand :
    ∃ before after, "close > @".toList = before ++ after ∧ column before = 8 ∧
      (ParseError.picture ⟨.expectedOperand (.text ['@']), 8⟩ "close > @").toList.splitOn '\n' =
        ["close > @".toList, "        ^".toList,
          "parse error at position 8: expected operand, found '@'".toList] := by
  have herror : (ofString "close > @" : Except ParseError (Expr Float)) =
      .error ⟨.expectedOperand (.text ['@']), 8⟩ := by
    unfold ofString
    decide +kernel
  have hnarrow :
      ∀ c ∈ "close > @".toList, isBlank c = true → c ≠ '\n' ∧ c.utf8Size = 1 := by
    simp [Char.utf8Size_eq_one_iff]
  obtain ⟨before, after, htext, -, -, hpicture, -, hcolumn⟩ := caret_of_error herror
  refine ⟨before, after, htext, (hcolumn.2 fun c hc => hnarrow c ?_).symm, ?_⟩
  · rw [htext]
    exact List.mem_append_left after hc
  · rw [hpicture]
    decide

/-- The caret stands two columns too far to the right behind a blank of three bytes, and on a second
line as many as the first line has bytes. -/
theorem caret_beside_column :
    (∃ err, (ofString "close\u3000> @" : Except ParseError (Expr Float)) = .error err ∧
      "close\u3000> @".toList = "close\u3000> ".toList ++ ['@'] ∧
      Utf8.length "close\u3000> ".toList = err.position ∧ column "close\u3000> ".toList = 8 ∧
      ((err.picture "close\u3000> @").toList.splitOn '\n')[1]? =
        some (ParseError.caretLine 10)) ∧
    ∃ err, (ofString "close >\n@" : Except ParseError (Expr Float)) = .error err ∧
      "close >\n@".toList = "close >\n".toList ++ ['@'] ∧
      Utf8.length "close >\n".toList = err.position ∧ column "close >\n".toList = 0 ∧
      ((err.picture "close >\n@").toList.splitOn '\n')[2]? = some (ParseError.caretLine 8) := by
  refine ⟨⟨⟨.expectedOperand (.text ['@']), 10⟩, ?_, by decide, by decide, by decide, ?_⟩,
    ⟨.expectedOperand (.text ['@']), 8⟩, ?_, by decide, by decide, by decide, ?_⟩
  · unfold ofString
    decide +kernel
  · decide
  · unfold ofString
    decide +kernel
  · decide

end Expr

end TradeRules
