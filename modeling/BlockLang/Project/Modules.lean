import BlockLang.FileTree.Operations
import BlockLang.Tree.Parser

/-! # Loading a source with its imports

A file is loaded before its imports, and its imports in their order, each file once. Where two
files declare the same thing, the one loaded first counts.
-/

namespace BlockLang

inductive ResolveError where
  | circularImport (cycle : List String)
  | unresolvedImport (importer path resolved : String)
  | io (path : String) (error : IoError)
  | parse (path : String) (error : SyntaxError) (source : String)
  deriving DecidableEq, Repr

def ResolveError.message : ResolveError → String
  | .circularImport cycle => "[resolver] circular import: " ++ String.intercalate " -> " cycle
  | .unresolvedImport importer path resolved =>
    s!"[resolver] {importer}: cannot resolve import \"{path}\" (looked for {resolved})"
  | .io path error => s!"[resolver] failed to read {path}: {error.message}"
  | .parse path error source => s!"{path}: {error.explain source}"

namespace Modules

def sourceExtension : String := "bs"

def withSourceExtension (path : String) : String :=
  if (Path.extension? path).isNone then Path.withExtension path sourceExtension else path

/-- The path that an import stands for: below the root if it starts with a
slash, else beside the importing file. -/
def importPath (root importer path : String) : String :=
  let candidate :=
    if path.toList.head? = some '/' then
      Path.join root (String.ofList (path.toList.dropWhile (· == '/')))
    else Path.join ((Path.parent? importer).getD ".") path
  withSourceExtension candidate

/-- The file that an import leads to, as a canonical path. -/
def importTarget (t : FileTree) (root importer path : String) : Except ResolveError String :=
  let candidate := importPath root importer path
  match t.canonical candidate with
  | .ok target => .ok target
  | .error .notFound => .error (.unresolvedImport importer path candidate)
  | .error e => .error (.io candidate e)

def entryTarget (t : FileTree) (entry : String) : Except ResolveError String :=
  let candidate := withSourceExtension entry
  (t.canonical candidate).mapError (.io candidate)

def readTree (t : FileTree) (path : String) : Except ResolveError Tree :=
  match t.readText path with
  | .error e => .error (.io path e)
  | .ok source => (Tree.ofSource source).mapError (.parse path · source)

/-- The files loaded so far with their trees, in the order of loading. A file is
in it before its imports are. -/
abbrev Loaded := List (String × Tree)

/-- Load a file with its imports. The files of which an import led here are on
the way, outermost first, and at most `depth` more can follow. -/
def load (t : FileTree) (root : String) : Nat → List String → Loaded → String →
    Except ResolveError Loaded
  | 0, _, loaded, _ => .ok loaded
  | depth + 1, way, loaded, path =>
    if path ∈ way then .error (.circularImport (way.dropWhile (· ≠ path) ++ [path]))
    else if (loaded.lookup path).isSome then .ok loaded
    else do
      let tree ← readTree t path
      tree.imports.foldlM (fun loaded i => do
        let target ← importTarget t root path i.path
        load t root depth (way ++ [path]) loaded target) (loaded ++ [(path, tree)])

/-- The first of the things with the same key, in order, where some keys are
taken. -/
def firsts {α κ : Type} [BEq κ] (key : α → κ) (taken : List κ) : List α → List α
  | [] => []
  | a :: rest =>
    if taken.contains (key a) then firsts key taken rest
    else a :: firsts key (key a :: taken) rest

/-- The merge of trees: the first schema and the first action of a name, the
first route of a verb and path, and all migrations. -/
def merge (trees : List Tree) : Tree where
  schemas := firsts Schema.name [] (trees.flatMap Tree.schemas)
  actions := firsts Action.name [] (trees.flatMap Tree.actions)
  routes := firsts Route.key [] (trees.flatMap Tree.routes)
  migrations := trees.flatMap Tree.migrations
  imports := []

end Modules

/-- More files than a way through the imports can have: than there are locations
that a path can lead to. -/
def Modules.wayLimit (t : FileTree) : Nat := t.entries.length + t.workingDirectory.length + 2

/-- The tree of an entry file and all that it imports. What several files
declare under one key is declared by the first of them. -/
def Tree.load (t : FileTree) (entry root : String) : Except ResolveError Tree := do
  let entry ← Modules.entryTarget t entry
  let loaded ← Modules.load t root (Modules.wayLimit t) [] [] entry
  return Modules.merge (loaded.map Prod.snd)

end BlockLang
