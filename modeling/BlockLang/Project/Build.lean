import BlockLang.FileTree.Replace
import BlockLang.Project.Error

/-! # Building a project

A project is a directory with a configuration file and sources. Building it writes the generated
files into its output directory, and either all of them are generated or none is written.
-/

namespace BlockLang

namespace Config

def path (root : String) : String := Path.join root "blocksmith.json"

/-- The configuration of a project. -/
def load (t : FileTree) (root : String) : Except ConfigError Config :=
  let path := path root
  if !t.exists? path then .ok {}
  else
    match t.readText path with
    | .error e => .error (.io path e)
    | .ok text =>
      match read? text with
      | none => .error (.malformed path)
      | some config =>
        if supportedVersion < config.version then .error (.unsupportedVersion path config.version)
        else .ok config

def save (t : FileTree) (root : String) (c : Config) : FileTree.Outcome ConfigError :=
  let outcome := t.replace (path root) (Text.bytes c.toJson.pretty)
  { outcome with result := outcome.result.mapError (.io (path root)) }

end Config

namespace Project

structure Report where
  schemas : Nat
  actions : Nat
  routes : Nat
  migrations : Nat
  filesWritten : List String
  deriving DecidableEq, Repr

/-- The tree of a project and the files generated from it. Nothing is written,
so an error here leaves everything as it was. -/
def compile (t : FileTree) (root : String) (c : Config) : Except BuildError (Tree × Artifacts) := do
  let tree ← (Tree.load t (Path.join root c.entry) root).mapError .resolve
  let artifacts ← (tree.emit c.emitOptions).mapError .emit
  return (tree, artifacts)

def outputs (outDir : String) (c : Config) (artifacts : Artifacts) : List (String × List UInt8) :=
  (Path.join outDir c.serverFile, Text.bytes artifacts.server)
    :: if c.emitTypes then [(Path.join outDir c.typesFile, Text.bytes artifacts.types)] else []

def report (tree : Tree) (files : List String) : Report where
  schemas := tree.schemas.length
  actions := tree.actions.length
  routes := tree.routes.length
  migrations := tree.migrations.length
  filesWritten := files

/-- Build a project. The directory for the generated files is made only when
there is something to write, and stays if writing fails. -/
def build (t : FileTree) (root : String) (c : Config) : Except BuildError Report × FileTree :=
  match compile t root c with
  | .error e => (.error e, t)
  | .ok (tree, artifacts) =>
    let outDir := Path.join root c.outDir
    match t.makeDirectories outDir with
    | ⟨.error e, made⟩ => (.error (.write outDir e), made)
    | ⟨.ok (), made⟩ =>
      let files := outputs outDir c artifacts
      match made.replaceAll files with
      | ⟨.error (path, e), left⟩ => (.error (.write path e), left)
      | ⟨.ok (), left⟩ => (.ok (report tree (files.map Prod.fst)), left)

/-- The record that a sample file gives under the checks of a schema. -/
def checkSample (t : FileTree) (tree : Tree) (schema path : String) :
    Except BuildError Json.Members := do
  match tree.schema? schema with
  | none => .error (.unknownSchema schema)
  | some schema =>
    let checks ← schema.checks.mapError .emit
    let text ← (t.readText path).mapError fun e => .sample path (.io e)
    match Json.read? text with
    | none => .error (.sample path .malformed)
    | some value => (validate checks value).mapError fun failure => .sample path (.refused failure)

end Project

end BlockLang
