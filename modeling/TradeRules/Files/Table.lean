import TradeRules.Text.Blank
import TradeRules.Text.Utf8
import TradeRules.Files.Delimited

/-!
# Tables

A table is a file of records whose first one is the header. The records after it are numbered from 1
and have as many fields as the header. Fields are texts without blanks around them.
-/

namespace TradeRules

open Text

/-- A data record of a table. -/
structure Row where
  /-- Its number, from 1. -/
  number : Nat
  /-- The record. -/
  record : Record
  deriving DecidableEq, Repr

/-- A table. -/
structure Table where
  /-- The fields of the header. -/
  header : List (List UInt8)
  /-- The data records. -/
  rows : List Row
  deriving DecidableEq, Repr

/-- What is wrong with a row as such. -/
inductive RowFault where
  /-- It has another number of fields than the header. -/
  | unequalLength (found expected : Nat)
  /-- A field is no text from some byte on. -/
  | notUtf8 (field index : Nat)
  deriving DecidableEq, Repr

/-- The number and place of a row, as in `record 1 (line: 2, byte: 30)`. -/
def Row.place (r : Row) : String :=
  "record " ++ toString r.number ++ " (line: " ++ toString r.record.position.line ++
    ", byte: " ++ toString r.record.position.byte ++ ")"

/-- The wording of what is wrong with a row. -/
def Row.complaint (r : Row) : RowFault → String
  | .unequalLength found expected =>
    "CSV error: " ++ r.place ++ ": found record with " ++ toString found ++
      " fields, but the previous record has " ++ toString expected ++ " fields"
  | .notUtf8 field index =>
    "CSV parse error: record " ++ toString r.number ++ " (line " ++
      toString r.record.position.line ++ ", field: " ++ toString field ++ ", byte: " ++
      toString r.record.position.byte ++ "): invalid utf-8: invalid UTF-8 in field " ++
      toString field ++ " near byte index " ++ toString index

namespace Table

/-- The table in a file, if it has a header. -/
def read? (bytes : List UInt8) : Option Table :=
  match Delimited.records bytes with
  | [] => none
  | first :: rest => some ⟨first.fields, rest.mapIdx fun i r => ⟨i + 1, r⟩⟩

/-- Whether a byte is an ASCII blank: a tab, a line feed, a form feed, a carriage return or a space.
The vertical tab is none, though it is white space as a character. -/
def isBlankByte (b : UInt8) : Bool := b == 9 || b == 10 || b == 12 || b == 13 || b == 32

/-- A byte string without the ASCII blanks at either end. -/
def trimBytes (bytes : List UInt8) : List UInt8 :=
  ((bytes.dropWhile isBlankByte).reverse.dropWhile isBlankByte).reverse

example : trimBytes [32, 11, 255, 9] = [11, 255] := by decide

/-- The texts of some fields, the first of which has a given number. -/
def texts (number : Nat) : List (List UInt8) → Except RowFault (List String)
  | [] => .ok []
  | field :: rest =>
    match Utf8.decode (trimBytes field) with
    | .error index => .error (.notUtf8 number index)
    | .ok cs =>
      match texts (number + 1) rest with
      | .error e => .error e
      | .ok more => .ok (String.ofList (trim cs) :: more)

/-- The texts of the header, if they are texts. -/
def columns? (t : Table) : Option (List String) := (texts 0 t.header).toOption

/-- The texts of a row with as many fields as the header. -/
def cells (t : Table) (r : Row) : Except RowFault (List String) :=
  if r.record.fields.length ≠ t.header.length then
    .error (.unequalLength r.record.fields.length t.header.length)
  else texts 0 r.record.fields

end Table

end TradeRules
