import TradeRules.Number.Numeral

/-!
# The command line

Three commands with options. An option is written `--name value`, `--name=value`, `-n value`,
`-nvalue` or `-n=value`, at most once, and a value that stands apart does not start with a dash.
Arguments are read from the left: a request for help ends the reading, as does anything that is out
of place.
-/

namespace TradeRules

open Number

/-- What is to be done. -/
inductive Command where
  /-- Evaluate the rules of a file, under the settings of another; the directory of prices may be
  given in place of that of the settings. -/
  | evaluate (config rules : String) (data : Option String)
  /-- Check an expression. -/
  | check (expression : String)
  /-- Show the latest values of an indicator of a symbol. -/
  | history (data symbol indicator : String) (limit : Nat)
  deriving DecidableEq, Repr

/-- Why nothing is to be done. -/
inductive CommandStop where
  /-- Help was asked for. -/
  | help
  /-- An argument is out of place. -/
  | misuse
  deriving DecidableEq, Repr

/-- The exit code of a program that does nothing. -/
def CommandStop.exitCode : CommandStop → Nat
  | .help => 0
  | .misuse => 2

/-- Which values an option takes. -/
inductive OptionKind where
  /-- Any text. -/
  | text
  /-- A path, which is not empty. -/
  | path
  /-- A count. -/
  | count
  deriving DecidableEq, Repr

/-- Whether a text is a value of a kind. -/
def OptionKind.allows : OptionKind → String → Bool
  | .text, _ => true
  | .path, s => s ≠ ""
  | .count, s => (readCount? s.toList).isSome

/-- An option, whose short name is the first letter of its long one. -/
structure CommandOption where
  /-- The long name. -/
  name : String
  /-- Which values it takes. -/
  kind : OptionKind
  deriving DecidableEq, Repr

/-- Values of options by their names. -/
abbrev OptionValues : Type := List (String × String)

namespace CommandLine

/-- The option with a long name. -/
def byName? (options : List CommandOption) (name : List Char) : Option CommandOption :=
  options.find? fun o => o.name.toList == name

/-- The option with a short name. -/
def byLetter? (options : List CommandOption) (letter : Char) : Option CommandOption :=
  options.find? fun o => o.name.toList.head? == some letter

/-- Whether an argument cannot be a value that stands apart. -/
def isDashed : List Char → Bool
  | '-' :: _ :: _ => true
  | _ => false

/-- One more value of an option, unless the option has one or does not allow it. -/
def assign (values : OptionValues) (o : CommandOption) (value : String) :
    Except CommandStop OptionValues :=
  if values.any (·.1 == o.name) then .error .misuse
  else if o.kind.allows value then .ok ((o.name, value) :: values)
  else .error .misuse

/-- What an argument is. -/
inductive Argument where
  /-- The end of the options. -/
  | separator
  /-- A request for help. -/
  | help
  /-- An option, with its value if that does not stand apart. -/
  | option (o : CommandOption) (value : Option String)
  /-- Anything else. -/
  | stray

/-- What an argument is, given the options that there are. -/
def classify (options : List CommandOption) (argument : List Char) : Argument :=
  match argument with
  | ['-', '-'] => .separator
  | '-' :: '-' :: long =>
    let name := long.takeWhile (· != '=')
    let value := match long.dropWhile (· != '=') with
      | [] => none
      | _ :: v => some (String.ofList v)
    if name = "help".toList then (if value = none then .help else .stray)
    else
      match byName? options name with
      | some o => .option o value
      | none => .stray
  | '-' :: letter :: rest =>
    if letter = 'h' then .help
    else
      match byLetter? options letter with
      | none => .stray
      | some o =>
        .option o <|
          match rest with
          | [] => none
          | '=' :: v => some (String.ofList v)
          | v => some (String.ofList v)
  | _ => .stray

/-- The values of options in some arguments, added to those before them. -/
def readValues (options : List CommandOption) (values : OptionValues) :
    List String → Except CommandStop OptionValues
  | [] => .ok values
  | argument :: rest =>
    match classify options argument.toList with
    | .separator => if rest = [] then .ok values else .error .misuse
    | .help => .error .help
    | .stray => .error .misuse
    | .option o (some value) =>
      match assign values o value with
      | .error e => .error e
      | .ok values => readValues options values rest
    | .option o none =>
      match rest with
      | [] => .error .misuse
      | value :: rest =>
        if isDashed value.toList then .error .misuse
        else
          match assign values o value with
          | .error e => .error e
          | .ok values => readValues options values rest

/-- The value of an option that has to be there. -/
def required (values : OptionValues) (name : String) : Except CommandStop String :=
  match values.lookup name with
  | some value => .ok value
  | none => .error .misuse

/-- How many points a history shows where nothing is said. -/
def defaultLimit : Nat := 30

/-- Reads the options of an evaluation. -/
def readEvaluate (arguments : List String) : Except CommandStop Command := do
  let values ← readValues [⟨"config", .path⟩, ⟨"rules", .path⟩, ⟨"data", .path⟩] [] arguments
  return .evaluate (← required values "config") (← required values "rules")
    (values.lookup "data")

/-- Reads the options of a check. -/
def readCheck (arguments : List String) : Except CommandStop Command := do
  let values ← readValues [⟨"expression", .text⟩] [] arguments
  return .check (← required values "expression")

/-- Reads the options of a history. -/
def readHistory (arguments : List String) : Except CommandStop Command := do
  let values ← readValues
    [⟨"data", .path⟩, ⟨"symbol", .text⟩, ⟨"indicator", .text⟩, ⟨"limit", .count⟩] [] arguments
  let limit := ((values.lookup "limit").bind (readCount? ·.toList)).getD defaultLimit
  return .history (← required values "data") (← required values "symbol")
    (← required values "indicator") limit

/-- The names of the commands, and that of the request for help on one of them. -/
def names : List String := ["evaluate", "check", "history", "help"]

/-- Whether an argument in place of a command asks for help. -/
def asksForHelp (argument : String) : Bool :=
  argument == "--help" || "-h".toList.isPrefixOf argument.toList

/-- Reads a command line without the name of the program. -/
def read : List String → Except CommandStop Command
  | [] => .error .misuse
  | "evaluate" :: rest => readEvaluate rest
  | "check" :: rest => readCheck rest
  | "history" :: rest => readHistory rest
  | ["help"] => .error .help
  | ["help", name] => .error (if names.contains name then .help else .misuse)
  | argument :: _ => .error (if asksForHelp argument then .help else .misuse)

end CommandLine

end TradeRules
