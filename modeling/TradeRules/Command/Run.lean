import TradeRules.Batch.Run
import TradeRules.Command.Line
import TradeRules.Command.Report
import TradeRules.Expr.Printer
import TradeRules.Files.Prices
import TradeRules.Files.Rules
import TradeRules.Settings.Validation

/-!
# The commands

A command ends with a report on the standard output, or with a failure that has a message and an
exit code and leaves the standard output empty. Files are read by an action that is handed in.
-/

namespace TradeRules

open Text Number

/-- Why a command fails. -/
inductive Failure where
  /-- The settings cannot be used. -/
  | settings (e : SettingsError)
  /-- The rules cannot be loaded. -/
  | rules (e : RuleFileError)
  /-- There is no history. -/
  | fetch (e : FetchError)
  /-- An expression cannot be read, shown below its text. -/
  | unreadable (text : String) (e : ParseError)
  /-- An expression leaves the vocabulary. -/
  | vocabulary (e : VocabularyError Float)
  /-- An indicator call cannot be used. -/
  | indicator (e : RuleError Float)

namespace Failure

/-- The wording of a failure. -/
def message : Failure → String
  | .settings e => e.message
  | .rules e => e.message
  | .fetch e => e.message
  | .unreadable text e => e.picture text
  | .vocabulary e => e.message
  | .indicator e => e.message

/-- The exit code of a failure. -/
def exitCode : Failure → Nat
  | .settings _ => 2
  | .fetch (.failed _ _) => 3
  | .rules _ | .unreadable _ _ | .vocabulary _ | .indicator _ => 4
  | .fetch (.noData _) => 5

end Failure

/-- What a program leaves behind. -/
structure Ended where
  /-- The exit code. -/
  exitCode : Nat
  /-- The standard output. -/
  out : String
  /-- The standard error output. -/
  err : String
  deriving DecidableEq, Repr

/-- How a program ends that has a report or a failure. -/
def Ended.of : Except Failure String → Ended
  | .ok report => ⟨0, report, ""⟩
  | .error f => ⟨f.exitCode, "", "error: " ++ f.message ++ "\n"⟩

namespace Command

/-- The settings in a file, given the answer to its reading. -/
def settingsOfAnswer (file : String) :
    Except ReadFault (List UInt8) → Except SettingsError Settings
  | .error fault => .error (unreadable fault.message)
  | .ok bytes =>
    match Utf8.decode bytes with
    | .error _ => .error (unreadable notUtf8)
    | .ok text =>
      match Settings.read text with
      | .error fault => .error (unreadable fault.message)
      | .ok s => .ok s
where
  /-- The error of a file that gives no settings. -/
  unreadable (reason : String) : SettingsError :=
    .unreadable file ("couldn't read " ++ file ++ ": " ++ reason)

/-- The settings in a file and the directory of prices: the given one, or that of the settings,
which are only then asked for it. -/
def usableSettings (file : String) (data : Option String)
    (answer : Except ReadFault (List UInt8)) : Except SettingsError (Settings × String) :=
  match settingsOfAnswer file answer with
  | .error e => .error e
  | .ok s =>
    match data with
    | some directory =>
      match s.validateBatch with
      | .error e => .error e
      | .ok () => .ok (s, directory)
    | none =>
      match s.validate with
      | .error e => .error e
      | .ok () => .ok (s, trimmed ((s.get? "data" "path").getD ""))

/-- The source of histories in a directory. -/
def source {m : Type → Type} [Monad m] (read : FileReader m) (directory : String)
    (request : Request) : m (Answer Float) := do
  match ← Prices.fetch read directory request with
  | .ok s => return .series s
  | .error e => return .refused (.fetch e)

/-- Evaluates the rules of a file. -/
def evaluateRules {m : Type → Type} [Monad m] (read : FileReader m) (config rules : String)
    (data : Option String) : m (Except Failure String) := do
  match usableSettings config data (← read config) with
  | .error e => return .error (.settings e)
  | .ok (settings, directory) =>
    match ← RuleFile.load read rules with
    | .error e => return .error (.rules e)
    | .ok rules =>
      let accounts := fun user => pure ((settings.availableCash user).mapError CashError.message)
      let outcome ← Batch.run (source read directory) accounts settings.batch rules
      return .ok (Report.outcome outcome)

/-- Checks an expression. -/
def checkExpression (text : String) : Except Failure String :=
  match Expr.ofString text with
  | .error e => .error (.unreadable text e)
  | .ok e =>
    match e.validate with
    | .error v => .error (.vocabulary v)
    | .ok () => .ok (Report.expression e.text e.indicators e.lookback)

/-- The indicator that a text calls. -/
def readIndicator (text : String) : Except (RuleError Float) Indicator :=
  match Expr.ofString text with
  | .error e => .error (.parse e)
  | .ok (.call f args) => (resolveCall f args).mapError .vocabulary
  | .ok e => .error (.vocabulary (.unknownFunction e.text))

/-- Shows the latest points of an indicator, with enough bars before them to settle it. -/
def showHistory {m : Type → Type} [Monad m] (read : FileReader m)
    (data symbol indicator : String) (limit : Nat) : m (Except Failure String) := do
  match readIndicator indicator with
  | .error e => return .error (.indicator e)
  | .ok i =>
    let days := min (limit + i.settlingBars) maxCount
    match ← Prices.fetch read data ⟨symbol, days⟩ with
    | .error e => return .error (.fetch e)
    | .ok s =>
      let points := i.history s.bars
      return .ok (Report.history symbol i (points.drop (points.length - limit)))

/-- Carries a command out. -/
def run {m : Type → Type} [Monad m] (read : FileReader m) (c : Command) : m Ended := do
  match c with
  | .evaluate config rules data => return .of (← evaluateRules read config rules data)
  | .check text => return .of (checkExpression text)
  | .history data symbol indicator limit =>
    return .of (← showHistory read data symbol indicator limit)

end Command

end TradeRules
