import BlockLang.Json.Value
import BlockLang.Tree.Basic

/-! # Trees as JSON values -/

namespace BlockLang

def Argument.toJson : Argument → Json
  | .number value => .double value
  | .text value => .text value
  | .list values => .array (values.map .text)

def Field.toJson (f : Field) : Json :=
  .ofMembers [("name", .text f.name), ("type_name", .text f.typeName),
    ("optional", .bool f.optional),
    ("args", .ofMembers (f.arguments.map fun (key, value) => (key, value.toJson)))]

def Schema.toJson (s : Schema) : Json :=
  .ofMembers [("name", .text s.name), ("fields", .array (s.fields.map Field.toJson)),
    ("line", .whole s.line)]

def Action.toJson (a : Action) : Json :=
  .ofMembers [("name", .text a.name), ("params", .array (a.params.map .text)),
    ("body", .text a.body), ("line", .whole a.line)]

def Step.toJson : Step → Json
  | .auth => .ofMembers [("kind", .text "auth")]
  | .validate schema => .ofMembers [("kind", .text "validate"), ("schema", .text schema)]
  | .action name => .ofMembers [("kind", .text "action"), ("name", .text name)]

def Route.toJson (r : Route) : Json :=
  .ofMembers [("verb", .text r.verb.spelling), ("path", .text r.path),
    ("pipeline", .array (r.pipeline.map Step.toJson)), ("line", .whole r.line)]

def Operation.toJson : Operation → Json
  | .addColumn table column typeName => .ofMembers [("op", .text "addColumn"),
      ("table", .text table), ("column", .text column), ("type_name", .text typeName)]
  | .dropColumn table column =>
    .ofMembers [("op", .text "dropColumn"), ("table", .text table), ("column", .text column)]
  | .createTable table => .ofMembers [("op", .text "createTable"), ("table", .text table)]
  | .dropTable table => .ofMembers [("op", .text "dropTable"), ("table", .text table)]

def Migration.toJson (m : Migration) : Json :=
  .ofMembers [("version", .text m.version),
    ("operations", .array (m.operations.map Operation.toJson)), ("line", .whole m.line)]

def Import.toJson (i : Import) : Json :=
  .ofMembers [("path", .text i.path), ("line", .whole i.line)]

/-- A tree as a value with the keys of every object in order. -/
def Tree.toJson (t : Tree) : Json :=
  .ofMembers [("schemas", .array (t.schemas.map Schema.toJson)),
    ("actions", .array (t.actions.map Action.toJson)),
    ("routes", .array (t.routes.map Route.toJson)),
    ("migrations", .array (t.migrations.map Migration.toJson)),
    ("imports", .array (t.imports.map Import.toJson))]

end BlockLang
