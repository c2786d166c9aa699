import BlockLang.Project.Config

/-! # The schema of configuration files

A JSON Schema document for editors, which describes the file that configurations are read from.
-/

namespace BlockLang.Config

def node (members : List (String × Json)) : Json := .ofMembers members

def stringNode (standard : String) (more : List (String × Json)) : Json :=
  node ([("type", .text "string"), ("default", .text standard)] ++ more)

def described (text : String) : List (String × Json) := [("description", .text text)]

def fieldNodes : Json :=
  let c : Config := {}
  node [
    ("version", node [("type", .text "integer"), ("format", .text "uint32"),
      ("minimum", .double (.ofNat 0))]),
    ("entry", stringNode c.entry (described "Entry file, relative to the project root.")),
    ("out_dir", stringNode c.outDir (described "Output directory, relative to the project root.")),
    ("dialect", node [("default", .text c.dialect.spelling),
      ("allOf", .array [node [("$ref", .text "#/definitions/Dialect")]])]),
    ("server_file", stringNode c.serverFile []),
    ("types_file", stringNode c.typesFile []),
    ("emit_types", node ([("type", .text "boolean"), ("default", .bool c.emitTypes)]
      ++ described "Whether to write the type-declaration artifact.")),
    ("runtime_module", stringNode c.runtimeModule
      (described "Module the generated server imports its runtime helpers from."))]

/-- The schema of configuration files, for editors that complete and check
them. -/
def jsonSchema : Json :=
  node ([
    ("$schema", .text "http://json-schema.org/draft-07/schema#"),
    ("title", .text "ProjectConfig"),
    ("type", .text "object"),
    ("required", .array [.text "version"]),
    ("properties", fieldNodes),
    ("definitions", node [("Dialect", node [("type", .text "string"),
      ("enum", .array (Dialect.all.map fun d => .text d.spelling))])])]
    ++ described ("Project-level build configuration, read from `blocksmith.json` at the project "
      ++ "root. Every field except `version` has a default."))

end BlockLang.Config
