/-!
# Delimited records

A file of records is a string of bytes. Commas end fields, and carriage returns and line feeds end
records; empty lines are passed over. A field that starts with a quotation mark runs to the next
single one, and two of them stand for one; in other fields quotation marks have no meaning. A byte
order mark at the very start is dropped. Every record knows where the reading of it began.
-/

namespace TradeRules

/-- A place in a file. -/
structure FilePosition where
  /-- The number of bytes before it. -/
  byte : Nat
  /-- The line it is in, from 1. -/
  line : Nat
  deriving DecidableEq, Repr

/-- The place after one more byte; a line feed ends a line. -/
def FilePosition.step (p : FilePosition) (b : UInt8) : FilePosition :=
  ⟨p.byte + 1, if b = 10 then p.line + 1 else p.line⟩

/-- The place after some more bytes. -/
def FilePosition.after (p : FilePosition) (bytes : List UInt8) : FilePosition :=
  bytes.foldl step p

/-- A record. -/
structure Record where
  /-- Where the reading of it began, which is before any empty lines above it. -/
  position : FilePosition
  /-- Its fields. -/
  fields : List (List UInt8)
  deriving DecidableEq, Repr

namespace Delimited

/-- Whether a byte ends a record. -/
def endsRecord (b : UInt8) : Bool := b == 10 || b == 13

/-- Whether a byte ends a field. -/
def isComma (b : UInt8) : Bool := b == 44

/-- Whether a byte is a quotation mark. -/
def isQuote (b : UInt8) : Bool := b == 34

/-- Where in a field the next byte stands. -/
inductive Place where
  /-- At its start. -/
  | start
  /-- In a field without quotation marks, or after them. -/
  | plain
  /-- Between quotation marks. -/
  | quoted
  /-- After a quotation mark that may be the first of two. -/
  | closing
  deriving DecidableEq, Repr

/-- What the reading of a record gives. -/
structure Scanned where
  /-- The fields from the one at hand on. -/
  fields : List (List UInt8)
  /-- The place after the record. -/
  next : FilePosition
  /-- The bytes after the record. -/
  rest : List UInt8
  deriving DecidableEq, Repr

/-- One more field in front. -/
def Scanned.withField (field : List UInt8) (s : Scanned) : Scanned :=
  { s with fields := field :: s.fields }

/-- Reads the rest of a record. The field at hand is given backwards, and `position` is that of
the next byte. -/
def scan (place : Place) (field : List UInt8) (position : FilePosition) : List UInt8 → Scanned
  | [] => ⟨[field.reverse], position, []⟩
  | b :: rest =>
    let next := position.step b
    if place = .quoted then
      if isQuote b then scan .closing field next rest else scan .quoted (b :: field) next rest
    else if isComma b then (scan .start [] next rest).withField field.reverse
    else if endsRecord b then ⟨[field.reverse], next, rest⟩
    else if isQuote b ∧ place = .start then scan .quoted field next rest
    else if isQuote b ∧ place = .closing then scan .quoted (b :: field) next rest
    else scan .plain (b :: field) next rest

theorem length_rest_scan_le (place : Place) (field : List UInt8) (position : FilePosition)
    (bytes : List UInt8) : (scan place field position bytes).rest.length ≤ bytes.length := by
  fun_induction scan place field position bytes <;> simp_all [Scanned.withField] <;> omega

/-- Reading a record takes at least one byte, if there is one. -/
theorem length_rest_scan_lt (position : FilePosition) (b : UInt8) (rest : List UInt8) :
    (scan .start [] position (b :: rest)).rest.length < (b :: rest).length := by
  have h := fun place field => length_rest_scan_le place field (position.step b) rest
  unfold scan
  simp only [List.length_cons]
  split
  · split <;> exact Nat.lt_succ_of_le (h _ _)
  · split
    · exact Nat.lt_succ_of_le (h _ _)
    · split
      · exact Nat.lt_succ_self _
      · split
        · exact Nat.lt_succ_of_le (h _ _)
        · split <;> exact Nat.lt_succ_of_le (h _ _)

/-- The records from a place on. -/
def recordsFrom (position : FilePosition) (bytes : List UInt8) : List Record :=
  match _more : bytes.dropWhile endsRecord with
  | [] => []
  | b :: r =>
    let scanned := scan .start [] (position.after (bytes.takeWhile endsRecord)) (b :: r)
    ⟨position, scanned.fields⟩ :: recordsFrom scanned.next scanned.rest
termination_by bytes.length
decreasing_by
  have h := (List.dropWhile_sublist endsRecord (l := bytes)).length_le
  rw [_more] at h
  exact Nat.lt_of_lt_of_le (length_rest_scan_lt _ b r) h

/-- The byte order mark. -/
def byteOrderMark : List UInt8 := [0xEF, 0xBB, 0xBF]

/-- The records of a file. -/
def records (bytes : List UInt8) : List Record :=
  if byteOrderMark.isPrefixOf bytes then
    match recordsFrom ⟨3, 1⟩ (bytes.drop 3) with
    | [] => []
    | first :: rest => { first with position := ⟨0, 1⟩ } :: rest
  else recordsFrom ⟨0, 1⟩ bytes

end Delimited

end TradeRules
