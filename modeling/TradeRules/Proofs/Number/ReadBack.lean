import TradeRules.Proofs.Number.Bits
import TradeRules.Proofs.Number.LongestDecimal

/-!
# Numbers that read back

A decimal in positional notation is read as the same digits with the same point. Since the
shortest decimal of a finite double reads back, so does its plain text, sign included:
`Float` is an instance of `ReadsBack`, which is all that the theory of expressions asks of a type of
numbers.
-/

namespace TradeRules

open Number

namespace Number.Decimal

/-- The digits of a natural are digits. -/
theorem all_isDigit_toDigits (n : Nat) : (Nat.toDigits 10 n).all Char.isDigit = true :=
  List.all_eq_true.2 fun _ hc => Nat.isDigit_of_mem_toDigits (by decide) (by decide) hc

/-- Leading zeros are digits too. -/
theorem all_isDigit_padded (width n : Nat) : (padded width n).all Char.isDigit = true := by
  simp only [padded, List.all_append, all_isDigit_toDigits, Bool.and_true]
  exact List.all_eq_true.2 fun c hc => by rw [List.eq_of_mem_replicate hc]; rfl

/-- Apart from the point there are digits only in a decimal. -/
theorem isDigit_or_eq_of_mem_spell {d : Decimal} {c : Char} (h : c ∈ d.spell) :
    c.isDigit = true ∨ c = '.' := by
  have hwhole : c ∈ d.wholeText → c.isDigit = true :=
    List.all_eq_true.1 (all_isDigit_toDigits _) c
  rw [spell] at h
  split at h
  · exact .inl (hwhole h)
  · rename_i hplaces
    rw [List.mem_append, List.mem_cons, fractionText, if_neg hplaces] at h
    rcases h with h | h | h
    · exact .inl (hwhole h)
    · exact .inr h
    · exact .inl (List.all_eq_true.1 (all_isDigit_padded _ _) c h)

/-- A natural that fits is filled up to its width. -/
theorem length_padded {width n : Nat} (hw : 0 < width) (hn : n < 10 ^ width) :
    (padded width n).length = width := by
  have h := (Nat.length_toDigits_le_iff (b := 10) (by decide) hw).2 hn
  simp only [padded, List.length_append, List.length_replicate]
  omega

/-- Digits after others shift those by the width. -/
theorem value_append_padded (cs : List Char) {width n : Nat} (hw : 0 < width)
    (hn : n < 10 ^ width) : value (cs ++ padded width n) = value cs * 10 ^ width + n := by
  have h := (Nat.length_toDigits_le_iff (b := 10) (by decide) hw).2 hn
  have hpow : 10 ^ (Nat.toDigits 10 n).length * 10 ^ (width - (Nat.toDigits 10 n).length) =
      10 ^ width := by
    rw [← Nat.pow_add]
    congr 1
    omega
  simp only [value, padded]
  rw [Nat.ofDigitChars_append, Nat.ofDigitChars_append, Nat.ofDigitChars_replicate_zero,
    Nat.ofDigitChars_eq_ofDigitChars_zero, Nat.ofDigitChars_ten_toDigits, ← Nat.mul_assoc, hpow,
    Nat.mul_comm]

/-- The digits before and after the point are those of the decimal. -/
theorem ofParts_texts (d : Decimal) : ofParts d.wholeText d.fractionText = d := by
  obtain ⟨digits, places⟩ := d
  rcases Nat.eq_zero_or_pos places with rfl | hpos
  · simp [ofParts, wholeText, fractionText, value]
  · have hlt : digits % 10 ^ places < 10 ^ places := Nat.mod_lt _ (Nat.pow_pos (by decide))
    simp only [ofParts, wholeText, fractionText, if_neg (Nat.ne_of_gt hpos)]
    rw [value_append_padded _ hpos hlt, length_padded hpos hlt, value,
      Nat.ofDigitChars_ten_toDigits, Nat.mul_comm, Nat.div_add_mod]

/-- The text of a decimal, read up to what follows it. -/
def leading (d : Decimal) (r : List Char) : LeadingDecimal :=
  ⟨d.wholeText, if d.places = 0 then none else some d.fractionText, r⟩

theorem text_leading (d : Decimal) (r : List Char) : (d.leading r).text = d.spell := by
  unfold leading LeadingDecimal.text spell
  split <;> simp

theorem magnitude_leading (d : Decimal) (r : List Char) : (d.leading r).magnitude = d := by
  have hplaces : (d.leading r).places = d.fractionText := by
    unfold leading LeadingDecimal.places fractionText
    split <;> rfl
  rw [LeadingDecimal.magnitude, hplaces]
  exact ofParts_texts d

theorem hasDigit_leading (d : Decimal) (r : List Char) : (d.leading r).hasDigit = true := by
  have hne : d.wholeText ≠ [] := Nat.toDigits_ne_nil
  simp [LeadingDecimal.hasDigit, leading, hne]

/-- Where neither a digit nor a point follows, the text of a decimal is taken as a whole. -/
theorem isLongest_leading (d : Decimal) {r : List Char} (hdigit : r.head?.any Char.isDigit = false)
    (hpoint : r.head? ≠ some '.') : (d.leading r).IsLongest where
  whole_digits := all_isDigit_toDigits _
  places_digits := by
    unfold leading LeadingDecimal.places fractionText
    split
    · rfl
    · exact all_isDigit_padded _ _
  no_digit := hdigit
  no_point _ := hpoint

end Number.Decimal

/-- A type of numbers whose finite members are written as decimals that read back. -/
class ReadsBack (α : Type) [Scalar α] : Prop where
  /-- A finite number is written as a sign and a decimal, which are read as that number. -/
  spell_finite (x : α) : Scalar.isFinite x = true →
    ∃ sign negative, SignText sign negative ∧ ∃ d : Decimal,
      Scalar.spell x = sign ++ d.spell ∧ Scalar.ofDecimal negative d = x
  /-- A finite number equals itself. -/
  same_self (x : α) : Scalar.isFinite x = true → Scalar.same x x = true
  /-- Only finite numbers equal a finite one. -/
  isFinite_of_same (x y : α) : Scalar.isFinite x = true → Scalar.same x y = true →
    Scalar.isFinite y = true

/-- The plain text of a finite double is its sign and its shortest decimal. -/
theorem Number.Binary64.spell_of_finite {x : Float} (h : wordOf x < infinityWord) :
    spell x = (if isNegative x then ['-'] else []) ++ (shortest (wordOf x)).spell := by
  have hle : ¬infinityWord < wordOf x := Nat.not_lt_of_lt h
  have hne : wordOf x ≠ infinityWord := Nat.ne_of_lt h
  simp only [spell, spellWith]
  rw [if_neg hle, if_neg hne]

/-- A double is a finite number where its word is below that of infinity. -/
theorem Number.Binary64.isFinite_iff (x : Float) :
    Scalar.isFinite x = true ↔ wordOf x < infinityWord := decide_eq_true_iff

/-- A decimal without exponent is read as its nearest double. -/
theorem Number.Binary64.ofDecimal_float (negative : Bool) (d : Decimal) :
    (Scalar.ofDecimal negative d : Float) = ofWord negative (ofDecimal d) := by
  have h : ofScientific d 0 = ofDecimal d := by
    unfold ofScientific
    exact if_pos rfl
  rw [← h]
  rfl

/-- Doubles read back. -/
instance : ReadsBack Float where
  spell_finite x hx := by
    have hword := (Binary64.isFinite_iff x).1 hx
    have hvalue : Scalar.ofDecimal (Binary64.isNegative x)
        (Binary64.shortest (Binary64.wordOf x)) = x := by
      rw [Binary64.ofDecimal_float, Binary64.ofDecimal_shortest hword, Binary64.ofWord_wordOf]
    refine ⟨_, Binary64.isNegative x, ?_, _, Binary64.spell_of_finite hword, hvalue⟩
    cases Binary64.isNegative x with
    | true => exact .minus
    | false => exact .none
  same_self x hx := Binary64.beq_self ((Binary64.isFinite_iff x).1 hx)
  isFinite_of_same x y hx hxy :=
    (Binary64.isFinite_iff y).2 (Binary64.wordOf_lt_of_beq ((Binary64.isFinite_iff x).1 hx) hxy)

end TradeRules
