import BlockLang.CommandLine.Arguments
import BlockLang.Project.Build
import BlockLang.Project.ConfigSchema
import BlockLang.Tree.Json
import BlockLang.Tree.Summary

/-! # Commands

A command works on a file tree and gives the lines it prints. When it fails, what it printed
before stays printed.
-/

namespace BlockLang.CommandLine

/-- The end of a run: what was printed, and the error that ended it. -/
structure Outcome where
  output : String
  error : Option BuildError := none
  deriving DecidableEq, Repr

def Outcome.exitCode (o : Outcome) : Nat :=
  match o.error with
  | some e => e.exitCode
  | none => 0

def Outcome.errorOutput (o : Outcome) : String :=
  match o.error with
  | some e => "Error: " ++ e.message ++ "\n"
  | none => ""

/-- The configuration of the project with what the settings say instead. -/
def config (t : FileTree) (s : Settings) : Except BuildError Config := do
  let c ← (Config.load t s.root).mapError .config
  return { c with entry := s.entry.getD c.entry, dialect := s.dialect.getD c.dialect }

def printed (value : Json) : String := value.pretty ++ "\n"

def reportJson (r : Project.Report) : Json :=
  .ofMembers [("schemas", .whole r.schemas), ("actions", .whole r.actions),
    ("routes", .whole r.routes), ("migrations", .whole r.migrations),
    ("files_written", .array (r.filesWritten.map .text))]

def reportText (r : Project.Report) : String :=
  s!"Built {r.schemas} schemas, {r.actions} actions, {r.routes} routes, "
    ++ s!"{r.migrations} migrations\n"
    ++ String.join (r.filesWritten.map fun path => "  " ++ path ++ "\n")

def build (t : FileTree) (s : Settings) (outDir : Option String) : Outcome × FileTree :=
  match config t s with
  | .error e => (⟨"", some e⟩, t)
  | .ok c =>
    match Project.build t s.root { c with outDir := outDir.getD c.outDir } with
    | (.error e, left) => (⟨"", some e⟩, left)
    | (.ok report, left) =>
      (⟨if s.json then printed (reportJson report) else reportText report, none⟩, left)

/-- The configuration and the tree of the project. Code is generated and thrown
away, so that its errors are found too. -/
def compiled (t : FileTree) (s : Settings) : Except BuildError (Config × Tree) := do
  let c ← config t s
  let (tree, _) ← Project.compile t s.root c
  return (c, tree)

def splitEquals? (text : String) : Option (String × String) :=
  match text.toList.span (· != '=') with
  | (before, _ :: behind) => some (String.ofList before, String.ofList behind)
  | (_, []) => none

def checkSample (t : FileTree) (s : Settings) (tree : Tree) (sample : String) :
    Except BuildError String := do
  match splitEquals? sample with
  | none => .error (.sample sample .notAPair)
  | some (schema, file) =>
    let record ← Project.checkSample t tree schema (Path.join s.root file)
    return if s.json then printed (.object record) else s!"{schema} <- {file}: ok\n"

/-- Check samples one after the other, up to the first that does not pass. -/
def checkSamples (t : FileTree) (s : Settings) (tree : Tree) (output : String) :
    List String → Outcome
  | [] => ⟨if s.json then output else output ++ "OK\n", none⟩
  | sample :: rest =>
    match checkSample t s tree sample with
    | .error e => ⟨output, some e⟩
    | .ok text => checkSamples t s tree (output ++ text) rest

def statementsJson (table : String) (s : Statements) (list : String) : Json :=
  .ofMembers [("table", .text table), ("insert", .text s.insert),
    ("update", (s.update.map Json.text).getD .null), ("delete", .text s.delete),
    ("findByKey", .text s.findByKey), ("createTable", .text s.createTable), ("list", .text list)]

def statementsText (s : Statements) (list : String) : String :=
  "insert:      " ++ s.insert ++ "\n"
    ++ "update:      " ++ s.update.getD "(no writable columns)" ++ "\n"
    ++ "delete:      " ++ s.delete ++ "\n"
    ++ "findByKey:   " ++ s.findByKey ++ "\n"
    ++ "createTable: " ++ s.createTable ++ "\n"
    ++ "list:        " ++ list ++ "\n"

def statements (t : FileTree) (s : Settings) (name : String) (filters : List String)
    (sort : Option String) : Except BuildError String := do
  let (c, tree) ← compiled t s
  match tree.schema? name with
  | none => .error (.unknownSchema name)
  | some schema =>
    let list ← (schema.listQuery c.dialect filters (sort.map RowOrder.ofText)).mapError .emit
    let all := Statements.ofSchema c.dialect schema
    return if s.json then printed (statementsJson schema.name all list)
      else statementsText all list

def Outcome.of : Except BuildError String → Outcome
  | .ok output => ⟨output, none⟩
  | .error e => ⟨"", some e⟩

/-- Run a command on a file tree. All commands but the build leave the tree as
it is. -/
def run (t : FileTree) (s : Settings) : Command → Outcome × FileTree
  | .build outDir => build t s outDir
  | .check samples =>
    match compiled t s with
    | .error e => (⟨"", some e⟩, t)
    | .ok (_, tree) => (checkSamples t s tree "" samples, t)
  | .inspect =>
    (.of ((compiled t s).map fun (_, tree) =>
      if s.json then printed tree.toJson else tree.summary ++ "\n"), t)
  | .statements name filters sort => (.of (statements t s name filters sort), t)
  | .configSchema => (⟨printed Config.jsonSchema, none⟩, t)

def versionText : String := "blocksmith-cli 0.1.0\n"

end BlockLang.CommandLine
