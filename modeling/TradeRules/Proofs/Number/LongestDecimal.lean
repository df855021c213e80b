import TradeRules.Number.Numeral
import TradeRules.Proofs.Text.Run

/-!
# The decimal at the start of a text

Every text starts with exactly one longest row of digits that has at most one point.
`LeadingDecimal.read` returns it (`isLongest_read`) and returns nothing else
(`read_of_isLongest`). A sign is one character or none, and `splitSign` takes it off.
-/

namespace TradeRules.Number

open Text

/-- The signs that a number may have, and whether they turn it below zero. -/
inductive SignText : List Char → Bool → Prop where
  /-- No sign at all. -/
  | none : SignText [] false
  /-- A minus sign. -/
  | minus : SignText ['-'] true
  /-- A plus sign. -/
  | plus : SignText ['+'] false

/-- Taking the sign off a text gives nothing away. -/
theorem signText_splitSign (cs : List Char) :
    ∃ sign, SignText sign (splitSign cs).1 ∧ sign.length = signLength cs ∧
      sign ++ (splitSign cs).2 = cs := by
  unfold splitSign signLength
  split
  · exact ⟨['-'], .minus, rfl, rfl⟩
  · exact ⟨['+'], .plus, rfl, rfl⟩
  · exact ⟨[], .none, rfl, rfl⟩

/-- A sign in front of something unsigned is the one that is taken off. -/
theorem splitSign_append {sign cs : List Char} {negative : Bool} (h : SignText sign negative)
    (hminus : cs.head? ≠ some '-') (hplus : cs.head? ≠ some '+') :
    splitSign (sign ++ cs) = (negative, cs) ∧ signLength (sign ++ cs) = sign.length := by
  cases h with
  | minus => exact ⟨rfl, rfl⟩
  | plus => exact ⟨rfl, rfl⟩
  | none =>
    cases cs with
    | nil => exact ⟨rfl, rfl⟩
    | cons c cs =>
      have h₁ : c ≠ '-' := fun h => hminus (by rw [h]; rfl)
      have h₂ : c ≠ '+' := fun h => hplus (by rw [h]; rfl)
      constructor
      · simp only [List.nil_append]
        unfold splitSign
        split <;> simp_all
      · simp only [List.nil_append, List.length_nil]
        unfold signLength
        split <;> simp_all

namespace LeadingDecimal

/-- The characters of a decimal, without what follows it. -/
def text (d : LeadingDecimal) : List Char := d.whole ++ (d.fraction.map ('.' :: ·)).getD []

/-- A decimal has digits only, and what follows it could not have belonged to it. -/
structure IsLongest (d : LeadingDecimal) : Prop where
  /-- Before the point there are only digits. -/
  whole_digits : d.whole.all Char.isDigit = true
  /-- After the point there are only digits. -/
  places_digits : d.places.all Char.isDigit = true
  /-- No further digit follows. -/
  no_digit : d.rest.head?.any Char.isDigit = false
  /-- No point follows unless there was one. -/
  no_point : d.fraction = none → d.rest.head? ≠ some '.'

/-- The characters of a decimal are as many as it takes. -/
theorem length_text (d : LeadingDecimal) : d.text.length = d.size := by
  obtain ⟨whole, fraction, rest⟩ := d
  cases fraction <;> simp [text, size]

/-- The decimal and what follows it make up the text. -/
theorem text_append_rest_read (cs : List Char) : (read cs).text ++ (read cs).rest = cs := by
  have h := List.takeWhile_append_dropWhile (p := Char.isDigit) (l := cs)
  unfold read splitDigits
  dsimp only
  split
  · rename_i rest hr
    have h' := List.takeWhile_append_dropWhile (p := Char.isDigit) (l := rest)
    rw [hr] at h
    simpa [text, h'] using h
  · simp [text]

/-- What is read is the longest decimal there is. -/
theorem isLongest_read (cs : List Char) : (read cs).IsLongest := by
  have hw : (cs.takeWhile Char.isDigit).all Char.isDigit = true := List.all_takeWhile
  unfold read splitDigits
  dsimp only
  split
  · rename_i rest hr
    exact ⟨hw, List.all_takeWhile, any_head?_dropWhile _ _, fun h => by cases h⟩
  · rename_i hr
    refine ⟨hw, rfl, any_head?_dropWhile _ _, fun _ h => ?_⟩
    obtain ⟨rest, hrest⟩ := List.head?_eq_some_iff.1 h
    exact hr rest hrest

/-- The longest decimal is what is read. -/
theorem read_of_isLongest {d : LeadingDecimal} (h : d.IsLongest) :
    read (d.text ++ d.rest) = d := by
  obtain ⟨whole, fraction, rest⟩ := d
  obtain ⟨hw, hp, hd, hn⟩ := h
  dsimp only at hw hp hd hn
  cases fraction with
  | none =>
    have htake := takeWhile_append_of_stop hw hd
    have hdrop := dropWhile_append_of_stop hw hd
    simp only [text, Option.map_none, Option.getD_none, List.append_nil]
    unfold read splitDigits
    rw [htake, hdrop]
    dsimp only
    split
    · exact absurd rfl (hn rfl)
    · rfl
  | some digits =>
    have hp' : digits.all Char.isDigit = true := hp
    have hpoint : ('.' :: (digits ++ rest)).head?.any Char.isDigit = false := rfl
    have htake := takeWhile_append_of_stop hw hpoint
    have hdrop := dropWhile_append_of_stop hw hpoint
    simp only [text, Option.map_some, Option.getD_some, List.append_assoc, List.cons_append]
    unfold read splitDigits
    rw [htake, hdrop]
    change LeadingDecimal.mk whole (some ((digits ++ rest).takeWhile Char.isDigit))
      ((digits ++ rest).dropWhile Char.isDigit) = _
    rw [takeWhile_append_of_stop hp' hd, dropWhile_append_of_stop hp' hd]

/-- A decimal with a digit starts with a digit or with its point. -/
theorem head?_text {d : LeadingDecimal} (h : d.IsLongest) (hd : d.hasDigit = true) :
    ∃ c cs, d.text = c :: cs ∧ (c.isDigit || c == '.') = true := by
  obtain ⟨whole, fraction, rest⟩ := d
  cases whole with
  | cons c cs =>
    have hc : c.isDigit = true := List.all_eq_true.1 h.whole_digits c List.mem_cons_self
    exact ⟨c, _, rfl, by simp [hc]⟩
  | nil =>
    cases fraction with
    | none => simp [hasDigit, places] at hd
    | some digits => exact ⟨'.', digits, rfl, rfl⟩

end LeadingDecimal

end TradeRules.Number
