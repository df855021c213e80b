import TradeRules.Rule.Basic
import TradeRules.Files.Reading
import TradeRules.Files.Table

/-!
# Rule files

A table with one rule per row. Columns are found by their names in the header, and others are passed
over; a header that is no text leaves the columns in the order of `RuleField.all`. A row is read
from the left, so that the first column that is wrong decides, and a missing column is noticed
last.
-/

namespace TradeRules

/-- The columns of a rule. -/
inductive RuleField where
  | id
  | user
  | symbol
  | condition
  | action
  | sizing
  | size
  | isActive
  deriving DecidableEq, Repr

namespace RuleField

/-- All columns, in the order in which a missing one is noticed. -/
def all : List RuleField :=
  [.id, .user, .symbol, .condition, .action, .sizing, .size, .isActive]

/-- The name of a column. -/
def name : RuleField → String
  | .id => "id"
  | .user => "user_id"
  | .symbol => "symbol"
  | .condition => "expression"
  | .action => "action"
  | .sizing => "quantity_type"
  | .size => "quantity_value"
  | .isActive => "is_active"

/-- The column that a name in a header means. -/
def ofName? (n : String) : Option RuleField := all.find? fun f => f.name == n

end RuleField

/-- What is wrong with the cells of a row. -/
inductive CellFault where
  /-- A column stands in the header twice. -/
  | duplicateField (f : RuleField)
  /-- A column does not stand in the header. -/
  | missingField (f : RuleField)
  /-- A cell holds none of the words allowed for it. -/
  | unknownWord (text : String) (allowed : List String)
  /-- A cell is neither `true` nor `false`. -/
  | notTruth (column : Nat)
  /-- A row without names for its columns is too short. -/
  | tooShort (found : Nat)
  deriving DecidableEq, Repr

/-- Words between backquotes, as a message lists them. -/
def listWords : List String → String
  | [] => ""
  | [a] => quoted a
  | [a, b] => quoted a ++ " or " ++ quoted b
  | words => "one of " ++ ", ".intercalate (words.map quoted)
where
  /-- A word between backquotes. -/
  quoted (word : String) : String := "\x60" ++ word ++ "\x60"

/-- The wording of what is wrong with the cells of a row. -/
def CellFault.message : CellFault → String
  | .duplicateField f => "duplicate field " ++ listWords [f.name]
  | .missingField f => "missing field " ++ listWords [f.name]
  | .unknownWord text allowed =>
    "unknown variant " ++ listWords [text] ++ ", expected " ++ listWords allowed
  | .notTruth column =>
    "field " ++ toString column ++ ": provided string was not " ++ listWords ["true", "false"]
  | .tooShort found =>
    "invalid length " ++ toString found ++ ", expected struct TradingRule with " ++
      toString RuleField.all.length ++ " elements"

/-- Why there are no rules in a file. -/
inductive RulesFault where
  /-- The file cannot be read. -/
  | unreadable (fault : ReadFault)
  /-- A row is wrong as such. -/
  | row (r : Row) (fault : RowFault)
  /-- The cells of a row are wrong. -/
  | cells (r : Row) (fault : CellFault)
  deriving DecidableEq, Repr

/-- The wording of the reason. -/
def RulesFault.message : RulesFault → String
  | .unreadable fault => fault.message
  | .row r fault => r.complaint fault
  | .cells r fault => "CSV deserialize error: " ++ r.place ++ ": " ++ fault.message

/-- A file holds no rules. -/
structure RuleFileError where
  /-- The file. -/
  file : String
  /-- The reason. -/
  fault : RulesFault
  deriving DecidableEq, Repr

/-- The wording of the error. -/
def RuleFileError.message (e : RuleFileError) : String :=
  "invalid rule file " ++ e.file ++ ": " ++ e.fault.message

namespace RuleFile

/-- The direction that a cell names. -/
def readAction (text : String) : Except CellFault Action :=
  match Action.ofName? text with
  | some a => .ok a
  | none => .error (.unknownWord text (Action.all.map Action.name))

/-- The way of sizing that a cell names. -/
def readSizing (text : String) : Except CellFault Sizing :=
  match Sizing.ofName? text with
  | some s => .ok s
  | none => .error (.unknownWord text (Sizing.all.map Sizing.name))

/-- The truth value that a cell names. -/
def readTruth (column : Nat) (text : String) : Except CellFault Bool :=
  if text = "true" then .ok true
  else if text = "false" then .ok false
  else .error (.notTruth column)

/-- The rule of a row as far as its columns were read. -/
structure Draft where
  id : Option String := none
  user : Option String := none
  symbol : Option String := none
  condition : Option String := none
  action : Option Action := none
  sizing : Option Sizing := none
  size : Option String := none
  isActive : Option Bool := none

namespace Draft

/-- Whether a column was read. -/
def has (d : Draft) : RuleField → Bool
  | .id => d.id.isSome
  | .user => d.user.isSome
  | .symbol => d.symbol.isSome
  | .condition => d.condition.isSome
  | .action => d.action.isSome
  | .sizing => d.sizing.isSome
  | .size => d.size.isSome
  | .isActive => d.isActive.isSome

/-- The draft with the text of a column. -/
def fill (d : Draft) (column : Nat) (f : RuleField) (text : String) : Except CellFault Draft :=
  if d.has f then .error (.duplicateField f)
  else
    match f with
    | .id => .ok { d with id := some text }
    | .user => .ok { d with user := some text }
    | .symbol => .ok { d with symbol := some text }
    | .condition => .ok { d with condition := some text }
    | .action => (readAction text).map fun a => { d with action := some a }
    | .sizing => (readSizing text).map fun s => { d with sizing := some s }
    | .size => .ok { d with size := some text }
    | .isActive => (readTruth column text).map fun b => { d with isActive := some b }

/-- The draft with the texts of the columns from a number on. -/
def fillAll (d : Draft) (column : Nat) :
    List (Option RuleField × String) → Except CellFault Draft
  | [] => .ok d
  | (none, _) :: rest => d.fillAll (column + 1) rest
  | (some f, text) :: rest =>
    match d.fill column f text with
    | .error e => .error e
    | .ok d => d.fillAll (column + 1) rest

/-- A column that has to have been read. -/
def need {β : Type} (f : RuleField) : Option β → Except CellFault β
  | some x => .ok x
  | none => .error (.missingField f)

/-- The rule, if all its columns were read. -/
def finish (d : Draft) : Except CellFault Rule := do
  return {
    id := ← need .id d.id
    user := ← need .user d.user
    symbol := ← need .symbol d.symbol
    condition := ← need .condition d.condition
    action := ← need .action d.action
    sizing := ← need .sizing d.sizing
    size := ← need .size d.size
    isActive := ← need .isActive d.isActive }

end Draft

/-- The rule in the cells of a row, under the names of a header if there are any. -/
def rule (columns : Option (List String)) (cells : List String) : Except CellFault Rule :=
  match columns with
  | some names =>
    match Draft.fillAll {} 0 ((names.map RuleField.ofName?).zip cells) with
    | .error e => .error e
    | .ok d => d.finish
  | none =>
    match Draft.fillAll {} 0 ((RuleField.all.map some).zip cells) with
    | .error e => .error e
    | .ok d =>
      if cells.length < RuleField.all.length then .error (.tooShort cells.length) else d.finish

/-- The rules in some rows of a table. -/
def rulesOfRows (t : Table) : List Row → Except RulesFault (List Rule)
  | [] => .ok []
  | r :: rest =>
    match t.cells r with
    | .error fault => .error (.row r fault)
    | .ok cells =>
      match rule t.columns? cells with
      | .error fault => .error (.cells r fault)
      | .ok x =>
        match rulesOfRows t rest with
        | .error e => .error e
        | .ok more => .ok (x :: more)

/-- The rules in the bytes of a file. -/
def rules (bytes : List UInt8) : Except RulesFault (List Rule) :=
  match Table.read? bytes with
  | none => .ok []
  | some t => rulesOfRows t t.rows

/-- The rules in a file, given the answer to its reading. A directory holds none. -/
def ofAnswer : Except ReadFault (List UInt8) → Except RulesFault (List Rule)
  | .error .isDirectory => .ok []
  | .error fault => .error (.unreadable fault)
  | .ok bytes => rules bytes

/-- Loads the rules in a file. -/
def load {m : Type → Type} [Monad m] (read : FileReader m) (file : String) :
    m (Except RuleFileError (List Rule)) := do
  return (ofAnswer (← read file)).mapError fun fault => ⟨file, fault⟩

end RuleFile

end TradeRules
