import TradeRules.Batch.Outcome
import TradeRules.Batch.Plan
import TradeRules.Files.Reading
import TradeRules.Files.Table

/-!
# Price files

The history of a symbol is the table of that name in a directory, with a moment and five numbers in
each row, in any order. It is read as a whole or not at all: the first row that is wrong, and in it
the first column, is the reason why there is no history. Rows are named by the line that they would
be in without empty lines above them.
-/

namespace TradeRules

open Text Number

/-- Why there are no bars in a file. -/
inductive PriceFault where
  /-- The symbol is no plain file name. -/
  | invalidSymbol
  /-- The file cannot be read. -/
  | unreadable (path reason : String)
  /-- A row is wrong as such. -/
  | row (r : Row) (fault : RowFault)
  /-- A row has too few columns. -/
  | missingColumn (line : Nat) (column : String)
  /-- The first column is no moment. -/
  | invalidMoment (line : Nat) (text : String)
  /-- A later column is no number. -/
  | invalidNumber (line : Nat) (column text : String) (fault : NumeralFault)
  deriving DecidableEq, Repr

/-- The wording of the reason. -/
def PriceFault.message : PriceFault → String
  | .invalidSymbol => "invalid symbol"
  | .unreadable path reason => "failed to read " ++ path ++ ": " ++ reason
  | .row r fault => "CSV parse error: " ++ r.complaint fault
  | .missingColumn line column =>
    "line " ++ toString line ++ ": missing " ++ column ++ " column"
  | .invalidMoment line text =>
    "line " ++ toString line ++ ": invalid datetime '" ++ text ++ "'"
  | .invalidNumber line column text fault =>
    "line " ++ toString line ++ ": invalid " ++ column ++ " value '" ++ text ++ "': " ++
      fault.message

namespace Prices

/-- Whether two dots follow each other in a text. -/
def hasTwoDots : List Char → Bool
  | '.' :: '.' :: _ => true
  | _ :: rest => hasTwoDots rest
  | [] => false

/-- Whether a symbol names a file directly in a directory. -/
def isFileName (symbol : String) : Bool :=
  let cs := symbol.toList
  cs != [] && !cs.contains '/' && !cs.contains '\\' && !hasTwoDots cs

/-- The number in a column of a row. -/
def number (line : Nat) (cells : List String) (column : Nat) (field : BarField) :
    Except PriceFault Float :=
  match cells[column]? with
  | none => .error (.missingColumn line field.name)
  | some text =>
    match readNumeral text.toList with
    | .error fault => .error (.invalidNumber line field.name text fault)
    | .ok n => .ok n.toFloat

/-- The bar in a row. -/
def bar (line : Nat) (cells : List String) : Except PriceFault (Bar Float) :=
  match cells with
  | [] => .error (.missingColumn line "datetime")
  | first :: _ =>
    match Moment.read? first.toList with
    | none => .error (.invalidMoment line first)
    | some time => do
      let opening ← number line cells 1 .opening
      let high ← number line cells 2 .high
      let low ← number line cells 3 .low
      let close ← number line cells 4 .close
      let volume ← number line cells 5 .volume
      return { time, opening, high, low, close, volume }

/-- The bars in some rows of a table. -/
def barsOfRows (t : Table) : List Row → Except PriceFault (List (Bar Float))
  | [] => .ok []
  | r :: rest =>
    match t.cells r with
    | .error fault => .error (.row r fault)
    | .ok cells =>
      match bar (r.number + 1) cells with
      | .error e => .error e
      | .ok b =>
        match barsOfRows t rest with
        | .error e => .error e
        | .ok more => .ok (b :: more)

/-- The bars in a file, in the order of its rows. -/
def bars (path : String) (bytes : List UInt8) : Except PriceFault (List (Bar Float)) :=
  match Utf8.decode bytes with
  | .error _ => .error (.unreadable path notUtf8)
  | .ok _ =>
    match Table.read? bytes with
    | none => .ok []
    | some t => barsOfRows t t.rows

/-- The newest bars of a symbol, given the answer to the reading of its file. -/
def history (symbol path : String) (days : Nat) :
    Except ReadFault (List UInt8) → Except FetchError (Series Float)
  | .error .notFound => .error (.noData symbol)
  | .error fault => .error (.failed symbol (PriceFault.unreadable path fault.message).message)
  | .ok bytes =>
    match bars path bytes with
    | .error fault => .error (.failed symbol fault.message)
    | .ok [] => .error (.noData symbol)
    | .ok bars => .ok ((Series.ofBars symbol bars).newest days)

/-- The file of a symbol in a directory. -/
def path (directory symbol : String) : String := joinPath directory (symbol ++ ".csv")

/-- Fetches the newest bars of a symbol from a directory. -/
def fetch {m : Type → Type} [Monad m] (read : FileReader m) (directory : String)
    (request : Request) : m (Except FetchError (Series Float)) :=
  if isFileName request.symbol then do
    let path := path directory request.symbol
    return history request.symbol path request.days (← read path)
  else
    return .error (.failed request.symbol PriceFault.invalidSymbol.message)

end Prices

end TradeRules
