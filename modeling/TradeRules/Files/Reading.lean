/-!
# Reading a file

What can go wrong when a file is read, with the operating system's wording, and the type of an
action that reads one. Everything that needs files takes such an action.
-/

namespace TradeRules

/-- Why the bytes of a file cannot be had. -/
inductive ReadFault where
  /-- No such file. -/
  | notFound
  /-- The path leads to a directory. -/
  | isDirectory
  /-- The path leads through a file as if it were a directory. -/
  | notDirectory
  /-- A name in the path is too long. -/
  | nameTooLong
  /-- The path holds a zero character. -/
  | zeroInPath
  /-- Another reason, with its wording. -/
  | other (reason : String)
  deriving DecidableEq, Repr

/-- The wording of a reason. -/
def ReadFault.message : ReadFault → String
  | .notFound => "No such file or directory (os error 2)"
  | .isDirectory => "Is a directory (os error 21)"
  | .notDirectory => "Not a directory (os error 20)"
  | .nameTooLong => "File name too long (os error 36)"
  | .zeroInPath => "file name contained an unexpected NUL byte"
  | .other reason => reason

/-- Reads the file at a path. -/
abbrev FileReader (m : Type → Type) : Type := String → m (Except ReadFault (List UInt8))

/-- The wording for a file whose bytes are no text. -/
def notUtf8 : String := "stream did not contain valid UTF-8"

/-- The path of a file in a directory. -/
def joinPath (directory file : String) : String :=
  if directory = "" then file
  else if directory.toList.getLast? = some '/' then directory ++ file
  else directory ++ "/" ++ file

end TradeRules
