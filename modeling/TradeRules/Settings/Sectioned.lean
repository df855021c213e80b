import TradeRules.Text.Blank
import TradeRules.Text.LetterCase

/-!
# Sectioned settings

A text of settings consists of lines. A line is blank, or a section heading in brackets, or a key
with or without a value; a semicolon or a hash mark starts a comment anywhere. Sections and
keys are kept in lower case, so that letter case does not matter for finding them, and a later value
replaces an earlier one.
-/

namespace TradeRules

open Text

/-- Settings by section and key, both in lower case. A key may have no value. -/
structure Settings where
  /-- The entries, each key of a section once, in the order of first appearance. -/
  entries : List ((String × String) × Option String)
  deriving DecidableEq, Repr

/-- Why a text is no settings. -/
inductive SettingsFault where
  /-- A heading has no closing bracket. -/
  | unclosedHeading (line : Nat)
  /-- There is nothing before the sign that ends a key. -/
  | emptyKey (line : Nat)
  deriving DecidableEq, Repr

/-- The wording of a fault. -/
def SettingsFault.message : SettingsFault → String
  | .unclosedHeading line =>
    "line " ++ toString line ++
      ": Found opening bracket for section name but no closing bracket"
  | .emptyKey line => "line " ++ toString line ++ ":0: Key cannot be empty"

/-- What a line says. -/
inductive SettingsLine where
  /-- Nothing. -/
  | blank
  /-- That a section starts. -/
  | heading (name : String)
  /-- That a key has a value, or is there without one. -/
  | entry (key : String) (value : Option String)
  /-- That a section starts, but its name does not end. -/
  | unclosed
  /-- That nothing has a value. -/
  | keyless
  deriving DecidableEq, Repr

namespace SettingsLine

/-- Whether a character starts a comment. -/
def startsComment (c : Char) : Bool := c == ';' || c == '#'

/-- Whether a character ends a key. -/
def endsKey (c : Char) : Bool := c == '=' || c == ':'

/-- A text up to its last closing bracket, if it has one. -/
def beforeLastBracket? (cs : List Char) : Option (List Char) :=
  match cs.reverse.dropWhile (· != ']') with
  | [] => none
  | _ :: before => some before.reverse

/-- A text without its comment and the blanks around what is left. -/
def body (line : List Char) : List Char := trim ((trim line).takeWhile (!startsComment ·))

/-- A name without blanks around it, in lower case. -/
def normalName (cs : List Char) : String := String.ofList (lower (trim cs))

/-- What a line says. -/
def read (line : List Char) : SettingsLine :=
  match body line with
  | [] => .blank
  | '[' :: rest =>
    match beforeLastBracket? rest with
    | none => .unclosed
    | some name => .heading (normalName name)
  | cs =>
    match cs.dropWhile (!endsKey ·) with
    | [] => .entry (normalName cs) none
    | _ :: value =>
      let key := normalName (cs.takeWhile (!endsKey ·))
      if key = "" then .keyless else .entry key (some (String.ofList (trim value)))

end SettingsLine

namespace Settings

/-- No settings. -/
def empty : Settings := ⟨[]⟩

/-- The settings with a key set to a value, or to none. -/
def put (s : Settings) (sectionName key : String) (value : Option String) : Settings :=
  if s.entries.any (·.1 == (sectionName, key)) then
    ⟨s.entries.map fun e => if e.1 == (sectionName, key) then (e.1, value) else e⟩
  else ⟨s.entries ++ [((sectionName, key), value)]⟩

/-- The value of a key, where it has one. -/
def get? (s : Settings) (sectionName key : String) : Option String :=
  (s.entries.lookup (lowered sectionName, lowered key)).join

/-- The keys of a section, sorted by code points. -/
def keys (s : Settings) (sectionName : String) : List String :=
  ((s.entries.filter (·.1.1 == lowered sectionName)).map (·.1.2)).mergeSort (· ≤ ·)

/-- A text cut at its line feeds. -/
def lines : List Char → List (List Char)
  | [] => [[]]
  | c :: cs =>
    match lines cs with
    | [] => [[c]]
    | line :: rest => if c = '\n' then [] :: line :: rest else (c :: line) :: rest

/-- The section of keys before any heading. -/
def defaultSection : String := "default"

/-- The settings in some lines, added to those of the `number` lines before them. -/
def readLines (number : Nat) (current : String) (s : Settings) :
    List (List Char) → Except SettingsFault Settings
  | [] => .ok s
  | line :: rest =>
    match SettingsLine.read line with
    | .blank => readLines (number + 1) current s rest
    | .heading name => readLines (number + 1) name s rest
    | .entry key value => readLines (number + 1) current (s.put current key value) rest
    | .unclosed => .error (.unclosedHeading (number + 1))
    | .keyless => .error (.emptyKey (number + 1))

/-- The settings that a text spells. -/
def read (text : List Char) : Except SettingsFault Settings :=
  readLines 0 defaultSection empty (lines text)

example : (read "[Data]\nPath = x ; y\n".toList).toOption.bind (·.get? "data" "PATH") =
    some "x" := by decide +kernel

end Settings

end TradeRules
