import TradeRules.Text.Utf8
import TradeRules.Files.Reading

/-!
# A folder in memory

Files and directories by their relative paths, and the reading of a file from there. A path is
followed name by name: an empty name and a single dot stay where they are, two dots lead to the
parent, and every name passed through has to be a directory. Around the folder there are
directories without other names in them: its parents, and the root that a path with a leading slash
starts from.
-/

namespace TradeRules

open Text

/-- The contents of a folder: paths of names, each with the bytes of a file, or with nothing for
a directory. Directories on the way to a path exist without being listed. -/
structure Folder where
  /-- The listed files and directories. -/
  entries : List (List String × Option (List UInt8))

namespace Folder

/-- What is found at a path of names. -/
inductive Node where
  | file (bytes : List UInt8)
  | directory

/-- What is listed at, or exists on account of, a path of names. -/
def node? (f : Folder) (path : List String) : Option Node :=
  match f.entries.lookup path with
  | some (some bytes) => some (.file bytes)
  | some none => some .directory
  | none =>
    if path = [] ∨ f.entries.any fun e => path.isPrefixOf e.1 then some .directory else none

/-- The names in a path. -/
def names (path : String) : List String := path.splitOn "/"

/-- Whether a name in a path stays in the directory that it stands after. -/
def stays (name : String) : Bool := name == "" || name == "."

/-- The names of a listed path. -/
def listed (path : String) : List String := (names path).filter (!stays ·)

/-- Follows names from a directory around the folder. -/
def followAround : List String → Except ReadFault Node
  | [] => .ok .directory
  | name :: rest =>
    if 255 < Utf8.length name.toList then .error .nameTooLong
    else if stays name || name == ".." then followAround rest
    else .error .notFound

/-- Follows names from a directory in the folder, given as its own names in reverse. -/
def follow (f : Folder) (here : List String) : List String → Except ReadFault Node
  | [] =>
    match f.node? here.reverse with
    | some node => .ok node
    | none => .error .notFound
  | name :: rest =>
    match f.node? here.reverse with
    | none => .error .notFound
    | some (.file _) => .error .notDirectory
    | some .directory =>
      if 255 < Utf8.length name.toList then .error .nameTooLong
      else if stays name then f.follow here rest
      else if name = ".." then
        match here with
        | [] => followAround rest
        | _ :: parent => f.follow parent rest
      else f.follow (name :: here) rest

/-- The bytes of the file at a path, which is relative to the folder. -/
def read (f : Folder) (path : String) : Except ReadFault (List UInt8) :=
  if path.toList.contains (Char.ofNat 0) then .error .zeroInPath
  else if path = "" then .error .notFound
  else if 4096 ≤ Utf8.length path.toList then .error .nameTooLong
  else
    match if path.startsWith "/" then followAround (names path) else f.follow [] (names path) with
    | .error e => .error e
    | .ok .directory => .error .isDirectory
    | .ok (.file bytes) => .ok bytes

end Folder

end TradeRules
