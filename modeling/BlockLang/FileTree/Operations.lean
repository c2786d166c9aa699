import BlockLang.FileTree.Walk

/-! # Operations on files and directories

An operation either gives the changed tree or fails and changes nothing. Only making a directory
with all those above it can fail half-way.
-/

namespace BlockLang

/-- The end of several operations: whether they succeeded, and the tree they
left. -/
structure FileTree.Outcome (ε : Type) where
  result : Except ε Unit
  tree : FileTree

namespace FileTree

/-- The location that a path leads to, as a path. -/
def canonical (t : FileTree) (path : String) : Except IoError String :=
  (t.find path).map fun (location, _) => location.path

def exists? (t : FileTree) (path : String) : Bool := (t.find path).toBool

def isDirectory (t : FileTree) (path : String) : Bool :=
  match t.find path with
  | .ok (_, .directory) => true
  | _ => false

def read (t : FileTree) (path : String) : Except IoError (List UInt8) := do
  match ← t.find path with
  | (_, .directory) => .error .isDirectory
  | (_, .file contents) => return contents

def readText (t : FileTree) (path : String) : Except IoError String := do
  match Text.ofBytes? (← t.read path) with
  | some text => return text
  | none => .error .invalidText

/-- Create a file, or replace its contents. The directory that it is in must be
there, and a path with a slash at its end names no file. -/
def create (t : FileTree) (path : String) (contents : List UInt8) : Except IoError FileTree := do
  match ← t.parent path with
  | (directory, .name name false) =>
    match ← t.child? directory name with
    | some .directory => .error .isDirectory
    | _ => return t.set (directory ++ [name]) (.file contents)
  | _ => .error .isDirectory

def makeDirectory (t : FileTree) (path : String) : Except IoError FileTree := do
  match ← t.parent path with
  | (directory, .name name _) =>
    match ← t.child? directory name with
    | some _ => .error .alreadyExists
    | none => return t.set (directory ++ [name]) .directory
  | _ => .error .alreadyExists

/-- Give a file another path, in place of the file there if there is one. -/
def rename (t : FileTree) (old new : String) : Except IoError FileTree := do
  match ← t.parent old, ← t.parent new with
  | (oldDirectory, .name oldName oldSlash), (newDirectory, .name newName newSlash) =>
    match ← t.child? oldDirectory oldName, ← t.child? newDirectory newName with
    | none, _ => .error .notFound
    | some .directory, _ => .error .isDirectory
    | some (.file contents), target =>
      if oldSlash ∨ newSlash then .error .notDirectory
      else if target = some .directory then .error .isDirectory
      else
        return (t.erase (oldDirectory ++ [oldName])).set (newDirectory ++ [newName])
          (.file contents)
  | _, _ => .error .busy

def removeFile (t : FileTree) (path : String) : Except IoError FileTree := do
  match ← t.find path with
  | (_, .directory) => .error .isDirectory
  | (location, .file _) => return t.erase location

def ancestors : Nat → String → List String
  | 0, _ => []
  | limit + 1, path =>
    if path.isEmpty then []
    else
      match Path.parent? path with
      | none => []
      | some parent => path :: ancestors limit parent

/-- Make the directories at some paths, those that are there already being left
as they are. -/
def makeEach (t : FileTree) : List String → Outcome IoError
  | [] => ⟨.ok (), t⟩
  | path :: rest =>
    match t.makeDirectory path with
    | .ok made => made.makeEach rest
    | .error e =>
      if e = .alreadyExists ∧ t.isDirectory path then t.makeEach rest else ⟨.error e, t⟩

/-- Make a directory and those missing above it. The paths above it are given
from the inside out, and those passed so far in the other order. -/
def makeFrom (t : FileTree) (passed : List String) : List String → Outcome IoError
  | [] => t.makeEach passed
  | path :: rest =>
    match t.makeDirectory path with
    | .ok made => made.makeEach passed
    | .error e =>
      if e = .notFound then t.makeFrom (path :: passed) rest
      else if e = .alreadyExists ∧ t.isDirectory path then t.makeEach passed
      else ⟨.error e, t⟩

def makeDirectories (t : FileTree) (path : String) : Outcome IoError :=
  t.makeFrom [] (ancestors (path.length + 1) path)

end FileTree

end BlockLang
