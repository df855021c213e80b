import TradeRules.Number.Scalar
import TradeRules.Settings.Sectioned
import TradeRules.Batch.Plan

/-!
# What the settings of a batch have to say

Prices are read from the directory `path` of section `data`. The floor of every window,
`min_fetch_days` of section `batch`, may be left out. Every key of section `cash` is a user, or
`default`, with an amount that is finite and not negative. Validation reports the first
offence, keys being looked at in sorted order.
-/

namespace TradeRules

open Text Number

/-- Why settings cannot be used. -/
inductive SettingsError where
  /-- The file cannot be read. -/
  | unreadable (file reason : String)
  /-- A key is missing. -/
  | missing (sectionName key : String)
  /-- The value of a key is not allowed. -/
  | invalid (sectionName key reason : String)
  deriving DecidableEq, Repr

/-- The wording of the reason. -/
def SettingsError.message : SettingsError → String
  | .unreadable file reason => "config parse error in " ++ file ++ ": " ++ reason
  | .missing s key => "missing config key [" ++ s ++ "] " ++ key
  | .invalid s key reason => "invalid config value [" ++ s ++ "] " ++ key ++ ": " ++ reason

namespace Settings

/-- The double that a text spells, blanks around it apart. -/
def amount? (text : String) : Option Float :=
  match readNumeral (trim text.toList) with
  | .ok n => some n.toFloat
  | .error _ => none

/-- An amount of cash: a finite double that is not negative. -/
def cashAmount? (text : String) : Option Float :=
  (amount? text).filter fun x => Scalar.isFinite x && Scalar.atMost Scalar.zero x

/-- The integer value of a key, or a default where it has none. -/
def integer (s : Settings) (sectionName key : String) (default : Int) : Int :=
  ((s.get? sectionName key).bind fun text => readInteger? text.toList).getD default

/-- The double value of a key, or a default where it has none. -/
def double (s : Settings) (sectionName key : String) (default : Float) : Float :=
  match (s.get? sectionName key).map fun text => readNumeral text.toList with
  | some (.ok n) => n.toFloat
  | _ => default

/-- Checks the directory of prices. -/
def validatePath (s : Settings) : Except SettingsError Unit :=
  match s.get? "data" "path" with
  | none => .error (.missing "data" "path")
  | some path =>
    if trim path.toList = [] then .error (.invalid "data" "path" "path must not be empty")
    else .ok ()

/-- Checks the floor of the windows. -/
def validateFloor (s : Settings) : Except SettingsError Unit :=
  match s.get? "batch" "min_fetch_days" with
  | none => .ok ()
  | some text =>
    match readInteger? (trim text.toList) with
    | some days =>
      if 1 ≤ days ∧ days ≤ Expr.maxLookback then .ok () else .error outOfRange
    | none => .error outOfRange
where
  /-- The offence of a floor that is no number within bounds. -/
  outOfRange : SettingsError :=
    .invalid "batch" "min_fetch_days"
      ("min_fetch_days must be between 1 and " ++ toString Expr.maxLookback)

/-- Checks the amounts of cash. -/
def validateCash (s : Settings) : Except SettingsError Unit :=
  match (s.keys "cash").find? fun key => ((s.get? "cash" key).bind cashAmount?).isNone with
  | none => .ok ()
  | some key => .error (.invalid "cash" key "cash must be a non-negative number")

/-- Checks everything but the directory of prices. -/
def validateBatch (s : Settings) : Except SettingsError Unit :=
  match s.validateFloor with
  | .error e => .error e
  | .ok () => s.validateCash

/-- Checks everything. -/
def validate (s : Settings) : Except SettingsError Unit :=
  match s.validatePath with
  | .error e => .error e
  | .ok () => s.validateBatch

/-- The settings of a batch; a negative floor counts as none. -/
def batch (s : Settings) : BatchSettings :=
  let days := s.integer "batch" "min_fetch_days" Expr.defaultLookback
  ⟨if days < 0 then Expr.defaultLookback else days.toNat⟩

/-- A user's cash: the user's own entry counts, even if it is no amount, before that of
`default`. -/
def cash? (s : Settings) (user : String) : Option Float :=
  ((s.get? "cash" user).or (s.get? "cash" "default")).bind cashAmount?

end Settings

/-- A user's cash cannot be found out. -/
structure CashError where
  /-- The user. -/
  user : String
  deriving DecidableEq, Repr

/-- The wording of the reason. -/
def CashError.message (e : CashError) : String := "no available cash for user " ++ e.user

/-- A user's cash, or the reason why there is none. -/
def Settings.availableCash (s : Settings) (user : String) : Except CashError Float :=
  match s.cash? user with
  | some x => .ok x
  | none => .error ⟨user⟩

end TradeRules
