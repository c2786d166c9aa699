import BlockLang.CommandLine.Run

/-! # The program

The files of a project are read, a command runs on them as a file tree, and what it has changed is
written. New contents go to a file beside their target before any target is replaced.
-/

namespace BlockLang.Program

/-- The location that a path names, seen from a location. -/
def location (origin : Location) (path : String) : Location :=
  let start := if path.toList.head? = some '/' then [] else origin
  (FileTree.steps path).foldl (fun l segment =>
    if segment = "." then l else if segment = ".." then l.dropLast else l ++ [segment]) start

def withDirectories (t : FileTree) (l : Location) : FileTree :=
  (List.range l.length).foldl (fun t n => t.set (l.take (n + 1)) .directory) t

def onDisk (l : Location) : IO.FS.DirEntry where
  root := "/"
  fileName := l.path

/-- A tree with all files and directories below a location. Links to directories are left out. -/
partial def readBelow (t : FileTree) (l : Location) : IO FileTree := do
  let mut found := t.set l .directory
  for item in ← (onDisk l).path.readDir do
    let inside := l ++ [item.fileName]
    match (← item.path.symlinkMetadata).type with
    | .dir => found ← readBelow found inside
    | .file => found := found.set inside (.file (← IO.FS.readBinFile item.path).toList)
    | .symlink =>
      if (← item.path.pathExists) && !(← item.path.isDir) then
        found := found.set inside (.file (← IO.FS.readBinFile item.path).toList)
    | .other => pure ()
  return found

def readProject (root : String) : IO FileTree := do
  let workingDirectory := location [] (← IO.currentDir).toString
  let top := location workingDirectory root
  let above := withDirectories { workingDirectory } workingDirectory
  if ← (onDisk top).path.isDir then readBelow (withDirectories above top) top
  else return above

/-- The file that a run did not find, if this is why it failed. -/
def missing? : BuildError → Option String
  | .resolve (.unresolvedImport _ _ path) => some path
  | .resolve (.io path .notFound) => some path
  | .sample path (.io .notFound) => some path
  | _ => none

def fetch? (t : FileTree) (path : String) : IO (Option FileTree) := do
  let l := location t.workingDirectory path
  if (t.get? l).isSome || !(← (onDisk l).path.pathExists) then return none
  let above := withDirectories t l.dropLast
  if ← (onDisk l).path.isDir then return some (above.set l .directory)
  return some (above.set l (.file (← IO.FS.readBinFile l.path).toList))

/-- Run a command, again with one more file as long as it looks for files outside the project. -/
partial def runWith (t : FileTree) (s : CommandLine.Settings) (c : CommandLine.Command) :
    IO (CommandLine.Outcome × FileTree × FileTree) := do
  let (outcome, left) := CommandLine.run t s c
  match outcome.error.bind missing? with
  | none => return (outcome, t, left)
  | some path =>
    match ← fetch? t path with
    | none => return (outcome, t, left)
    | some more => runWith more s c

def writeChanges (old new : FileTree) : IO Unit := do
  let changed := new.entries.filter fun (l, e) => old.get? l ≠ some e
  for (l, e) in changed do
    match e with
    | .directory => IO.FS.createDirAll l.path
    | .file contents =>
      IO.FS.writeBinFile (Path.temporary l.path) (ByteArray.mk contents.toArray)
  for (l, e) in changed do
    if e ≠ .directory then IO.FS.rename (Path.temporary l.path) l.path
  for (l, _) in old.entries do
    if (new.get? l).isNone then IO.FS.removeFile l.path

def usage : String :=
  "Usage: blocksmith-cli [OPTIONS] <COMMAND>\n\n"
    ++ "Commands:\n"
    ++ "  build [--out-dir DIR]                          Write the generated files\n"
    ++ "  check [--sample SCHEMA=FILE]...                Check the project and JSON samples\n"
    ++ "  inspect                                        Print a summary of the project\n"
    ++ "  statements SCHEMA [--filter COLUMN]... [--sort FIELD]\n"
    ++ "                                                 Print the SQL of a schema\n"
    ++ "  config-schema                                  Print the schema of blocksmith.json\n\n"
    ++ "Options: --root DIR, --entry FILE, --dialect sqlite|postgres, --json, -v, -h, -V\n"

end BlockLang.Program

open BlockLang in
/-- Run the command that the arguments ask for. Changes are written also after a
failure, which may have left some. -/
def main (args : List String) : IO UInt32 := do
  match CommandLine.read args with
  | .misuse =>
    (← IO.getStderr).putStr Program.usage
    return 2
  | .help =>
    (← IO.getStdout).putStr Program.usage
    return 0
  | .version =>
    (← IO.getStdout).putStr CommandLine.versionText
    return 0
  | .run settings command =>
    let t ← Program.readProject settings.root
    let (outcome, old, new) ← Program.runWith t settings command
    Program.writeChanges old new
    (← IO.getStdout).putStr outcome.output
    (← IO.getStderr).putStr outcome.errorOutput
    return UInt32.ofNat outcome.exitCode
