import BlockLang.FileTree.Operations

/-! # Replacing files

New contents are first written to a file beside the target, which then takes the place of the
target. With several targets all new contents are written before the first target is replaced.
-/

namespace BlockLang.FileTree

/-- Write new contents beside a target, which keeps what it has. -/
def stage (t : FileTree) (path : String) (contents : List UInt8) : Except IoError FileTree :=
  t.create (Path.temporary path) contents

/-- Put the new contents of a target in its place. Until then, whoever reads the
target finds its old contents. -/
def commit (t : FileTree) (path : String) : Except IoError FileTree :=
  t.rename (Path.temporary path) path

/-- Replace a file. If the last step fails, what was written beside it is left
there. -/
def replace (t : FileTree) (path : String) (contents : List UInt8) : Outcome IoError :=
  match t.stage path contents with
  | .error e => ⟨.error e, t⟩
  | .ok staged =>
    match staged.commit path with
    | .error e => ⟨.error e, staged⟩
    | .ok done => ⟨.ok (), done⟩

/-- Remove what was written beside some targets. -/
def discard (t : FileTree) (paths : List String) : FileTree :=
  paths.foldl (fun t path => (t.removeFile (Path.temporary path)).toOption.getD t) t

def commitAll (t : FileTree) : List String → Outcome (String × IoError)
  | [] => ⟨.ok (), t⟩
  | path :: rest =>
    match t.commit path with
    | .error e => ⟨.error (path, e), t⟩
    | .ok done => done.commitAll rest

/-- Write the new contents of all targets beside them, `staged` being the
targets done so far, then put them in their places. -/
def stageAll (t : FileTree) (staged : List String) :
    List (String × List UInt8) → Outcome (String × IoError)
  | [] => t.commitAll staged
  | (path, contents) :: rest =>
    match t.stage path contents with
    | .error e => ⟨.error (path, e), t.discard staged⟩
    | .ok next => next.stageAll (staged ++ [path]) rest

/-- Replace several files. A failure gives the path that failed. -/
def replaceAll (t : FileTree) (files : List (String × List UInt8)) : Outcome (String × IoError) :=
  t.stageAll [] files

end BlockLang.FileTree
