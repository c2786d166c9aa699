import BlockLang.FileTree.Path
import BlockLang.Text.Utf8

/-! # File trees

All files and directories of a machine, as a map from locations. A location is the list of the
names that lead to it from the root; there are no links, so it is the one name of its file.
-/

namespace BlockLang

inductive Entry where
  | file (contents : List UInt8)
  | directory
  deriving DecidableEq, Repr

/-- The names that lead from the root of a file tree to an entry. -/
abbrev Location := List String

def Location.path (l : Location) : String := "/" ++ String.intercalate "/" l

/-- Files and directories by their locations. Links, owners and times play no
part, and nothing but the operations here changes a tree. -/
structure FileTree where
  entries : List (Location × Entry) := []
  /-- Where paths that do not start with a slash begin. -/
  workingDirectory : Location := []
  deriving DecidableEq, Repr

inductive IoError where
  | notFound
  | alreadyExists
  | notDirectory
  | isDirectory
  | nameTooLong
  | busy
  | invalidText
  | nulByte
  deriving DecidableEq, Repr

def IoError.message : IoError → String
  | .notFound => "No such file or directory (os error 2)"
  | .busy => "Device or resource busy (os error 16)"
  | .alreadyExists => "File exists (os error 17)"
  | .notDirectory => "Not a directory (os error 20)"
  | .isDirectory => "Is a directory (os error 21)"
  | .nameTooLong => "File name too long (os error 36)"
  | .invalidText => "stream did not contain valid UTF-8"
  | .nulByte => "file name contained an unexpected NUL byte"

namespace FileTree

/-- What is at a location. The root is always a directory. -/
def get? (t : FileTree) (l : Location) : Option Entry :=
  if l = [] then some .directory else t.entries.lookup l

/-- Entries with the one at a location replaced, or added if there was none. -/
def setEntry (l : Location) (e : Entry) : List (Location × Entry) → List (Location × Entry)
  | [] => [(l, e)]
  | (k, old) :: rest => if k = l then (l, e) :: rest else (k, old) :: setEntry l e rest

def set (t : FileTree) (l : Location) (e : Entry) : FileTree :=
  { t with entries := setEntry l e t.entries }

def erase (t : FileTree) (l : Location) : FileTree :=
  { t with entries := t.entries.filter (·.1 ≠ l) }

def pathBelow? (base : Location) (l : Location) (e : Entry) : Option String :=
  if base.isPrefixOf l ∧ l ≠ base then
    let path := String.intercalate "/" (l.drop base.length)
    some (if e = .directory then path ++ "/" else path)
  else none

def pathsBelow (t : FileTree) (base : Location) : List String :=
  (t.entries.filterMap fun (l, e) => pathBelow? base l e).mergeSort fun a b => a ≤ b

end FileTree

end BlockLang
