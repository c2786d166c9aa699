import BlockLang.FileTree.Basic

/-! # Following paths

A path is followed segment by segment, and every segment but the last must lead to a directory. A
slash at the end asks for a directory too.
-/

namespace BlockLang.FileTree

def nameLimit : Nat := 255

def pathLimit : Nat := 4096

/-- What the last segment of a path is. Whether a slash follows a name is kept,
for then the name has to be that of a directory. -/
inductive Last where
  | name (name : String) (slash : Bool)
  /-- The directory that the path has led to, or the one above it. -/
  | here
  | above
  deriving DecidableEq, Repr

def child? (t : FileTree) (directory : Location) (name : String) :
    Except IoError (Option Entry) :=
  if nameLimit < name.utf8ByteSize then .error .nameTooLong
  else .ok (t.get? (directory ++ [name]))

def enter (t : FileTree) (directory : Location) (segment : String) : Except IoError Location :=
  if segment = "." then .ok directory
  else if segment = ".." then .ok directory.dropLast
  else
    match t.child? directory segment with
    | .error e => .error e
    | .ok none => .error .notFound
    | .ok (some (.file _)) => .error .notDirectory
    | .ok (some .directory) => .ok (directory ++ [segment])

def enterAll (t : FileTree) (directory : Location) (segments : List String) :
    Except IoError Location :=
  segments.foldlM t.enter directory

def Last.of (segment : String) (slash : Bool) : Last :=
  if segment = "." then .here else if segment = ".." then .above else .name segment slash

/-- The segments of a path that lead anywhere. -/
def steps (path : String) : List String :=
  ((Path.segments path.toList).filter (· ≠ [])).map String.ofList

def origin (t : FileTree) (path : String) : Location :=
  if path.toList.head? = some '/' then [] else t.workingDirectory

/-- The directory that holds the last segment of a path, and that segment. -/
def parent (t : FileTree) (path : String) : Except IoError (Location × Last) :=
  if path.toList.contains (Char.ofNat 0) then .error .nulByte
  else if pathLimit ≤ path.utf8ByteSize then .error .nameTooLong
  else if path.isEmpty then .error .notFound
  else
    match (steps path).reverse with
    | [] => .ok ([], .here)
    | last :: before =>
      (t.enterAll (t.origin path) before.reverse).map fun directory =>
        (directory, .of last (path.toList.getLast? = some '/'))

def find (t : FileTree) (path : String) : Except IoError (Location × Entry) := do
  match ← t.parent path with
  | (directory, .here) => return (directory, .directory)
  | (directory, .above) => return (directory.dropLast, .directory)
  | (directory, .name name slash) =>
    match ← t.child? directory name with
    | none => .error .notFound
    | some (.file contents) =>
      if slash then .error .notDirectory else return (directory ++ [name], .file contents)
    | some .directory => return (directory ++ [name], .directory)

end BlockLang.FileTree
