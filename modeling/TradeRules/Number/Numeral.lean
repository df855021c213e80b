import TradeRules.Number.Binary64

/-!
# Number texts

Three readers, each for a whole text. A *numeral* is an optional sign before `inf`, `infinity` or
`nan` in any letter case, or before digits with at most one point, at least one digit and an
optional exponent. An *integer* is an optional sign before digits and fits 64 bits; a *count* has
no minus sign. Only ASCII digits are digits.
-/

namespace TradeRules.Number

/-- The magnitude that a numeral names. -/
inductive Magnitude where
  /-- A decimal times a power of ten. -/
  | scientific (mantissa : Decimal) (exponent : Int)
  /-- Without bound. -/
  | infinite
  /-- No number at all. -/
  | notANumber
  deriving DecidableEq, Repr

/-- A numeral as it is read. -/
structure Numeral where
  /-- Whether a minus sign stands in front. -/
  negative : Bool
  /-- What follows the sign. -/
  magnitude : Magnitude
  deriving DecidableEq, Repr

/-- Why a text is no numeral. -/
inductive NumeralFault where
  /-- There is no text. -/
  | empty
  /-- The text has another form. -/
  | malformed
  deriving DecidableEq, Repr

/-- The wording of a fault. -/
def NumeralFault.message : NumeralFault → String
  | .empty => "cannot parse float from empty string"
  | .malformed => "invalid float literal"

/-- A text without its sign, and whether the sign is a minus. -/
def splitSign : List Char → Bool × List Char
  | '-' :: rest => (true, rest)
  | '+' :: rest => (false, rest)
  | cs => (false, cs)

/-- How many characters the sign of a text takes. -/
def signLength : List Char → Nat
  | '-' :: _ | '+' :: _ => 1
  | _ => 0

/-- The sign and what follows it make up the text. -/
theorem signLength_add_length_splitSign (cs : List Char) :
    signLength cs + (splitSign cs).2.length = cs.length := by
  unfold signLength splitSign
  split <;> simp_all [Nat.add_comm]

/-- A text cut after its leading digits. -/
def splitDigits (cs : List Char) : List Char × List Char :=
  (cs.takeWhile Char.isDigit, cs.dropWhile Char.isDigit)

/-- The digits and what follows them make up the text. -/
theorem length_splitDigits (cs : List Char) :
    (splitDigits cs).1.length + (splitDigits cs).2.length = cs.length := by
  rw [splitDigits, ← List.length_append, List.takeWhile_append_dropWhile]

/-- The longest unsigned decimal that a text starts with, and what follows it. It need not have
a digit. -/
structure LeadingDecimal where
  /-- The digits before the point. -/
  whole : List Char
  /-- The digits after the point, if there is a point. -/
  fraction : Option (List Char)
  /-- What follows. -/
  rest : List Char

namespace LeadingDecimal

/-- The decimal that a text starts with. -/
def read (cs : List Char) : LeadingDecimal :=
  match (splitDigits cs).2 with
  | '.' :: rest => ⟨(splitDigits cs).1, some (splitDigits rest).1, (splitDigits rest).2⟩
  | rest => ⟨(splitDigits cs).1, none, rest⟩

/-- The digits after the point. -/
def places (d : LeadingDecimal) : List Char := d.fraction.getD []

/-- Whether there is a digit. -/
def hasDigit (d : LeadingDecimal) : Bool := !d.whole.isEmpty || !d.places.isEmpty

/-- How many characters the decimal takes, with its point. -/
def size (d : LeadingDecimal) : Nat :=
  d.whole.length + (d.fraction.map fun digits => digits.length + 1).getD 0

/-- The magnitude of the decimal. -/
def magnitude (d : LeadingDecimal) : Decimal := Decimal.ofParts d.whole d.places

/-- The decimal and what follows it make up the text. -/
theorem size_read_add_length_rest (cs : List Char) :
    (read cs).size + (read cs).rest.length = cs.length := by
  have h := length_splitDigits cs
  unfold read
  split
  · rename_i rest hr
    have := length_splitDigits rest
    rw [hr, List.length_cons] at h
    simp only [size, Option.map_some, Option.getD_some]
    omega
  · simpa [size] using h

/-- A decimal with a digit takes at least one character. -/
theorem size_pos_of_hasDigit {d : LeadingDecimal} (h : d.hasDigit = true) : 0 < d.size := by
  obtain ⟨whole, fraction, rest⟩ := d
  cases whole with
  | cons c cs => simp only [size, List.length_cons]; omega
  | nil =>
    cases fraction with
    | none => simp [hasDigit, places] at h
    | some digits => simp only [size, Option.map_some, Option.getD_some]; omega

end LeadingDecimal

/-- A natural that fills a whole text. -/
def readNatural? (cs : List Char) : Option Nat :=
  if cs ≠ [] ∧ cs.all Char.isDigit then some (Decimal.value cs) else none

/-- An integer of any size that fills a whole text. -/
def readSigned? (cs : List Char) : Option Int :=
  match splitSign cs with
  | (negative, digits) =>
    (readNatural? digits).map fun n => if negative then -(n : Int) else (n : Int)

/-- What stands after the sign of a numeral. -/
def readMagnitude? (cs : List Char) : Option Magnitude :=
  match String.ofList (cs.map Char.toLower) with
  | "inf" | "infinity" => some .infinite
  | "nan" => some .notANumber
  | _ =>
    let decimal := LeadingDecimal.read cs
    if decimal.hasDigit then
      match decimal.rest with
      | [] => some (.scientific decimal.magnitude 0)
      | mark :: exponent =>
        if mark = 'e' ∨ mark = 'E' then
          (readSigned? exponent).map fun e => .scientific decimal.magnitude e
        else none
    else none

/-- The numeral that fills a whole text. -/
def readNumeral (cs : List Char) : Except NumeralFault Numeral :=
  if cs = [] then .error .empty
  else
    match splitSign cs with
    | (negative, rest) =>
      match readMagnitude? rest with
      | some m => .ok ⟨negative, m⟩
      | none => .error .malformed

/-- The greatest count that fits 64 bits. -/
def maxCount : Nat := 2 ^ 64 - 1

/-- The integer of 64 bits that fills a whole text. -/
def readInteger? (cs : List Char) : Option Int :=
  (readSigned? cs).filter fun n => -2 ^ 63 ≤ n && n < 2 ^ 63

/-- The count that fills a whole text. -/
def readCount? (cs : List Char) : Option Nat :=
  match cs with
  | '-' :: _ => none
  | _ => (readNatural? (splitSign cs).2).filter (· ≤ maxCount)

/-- The word of the double nearest to a magnitude; what is no number has a word above that of
infinity. -/
def Magnitude.word : Magnitude → Nat
  | .scientific mantissa exponent => Binary64.ofScientific mantissa exponent
  | .infinite => Binary64.infinityWord
  | .notANumber => Binary64.infinityWord + 2 ^ 51

/-- The double nearest to a numeral. -/
def Numeral.toFloat (n : Numeral) : Float := Binary64.ofWord n.negative n.magnitude.word

example : (readNumeral "-1.5e2".toList).toOption =
    some ⟨true, .scientific ⟨15, 1⟩ 2⟩ := by decide
example : (readNumeral "Infinity".toList).toOption = some ⟨false, .infinite⟩ := by decide
example : (readNumeral "1e".toList).toOption = none := by decide
example : (readNumeral ".".toList).toOption = none := by decide
example : readCount? "+7".toList = some 7 ∧ readCount? "-0".toList = none := by decide

end TradeRules.Number
