import BlockLang.Text.Lines
import BlockLang.Text.Visible
import BlockLang.Tree.Basic

/-! # Summaries of trees

A summary lists schemas, actions, routes and migrations for a reader, one line for each thing.
-/

namespace BlockLang

def Argument.summary (key : String) : Argument → String
  | .number value => key ++ "=" ++ Decimal.plain.write value
  | .text value => key ++ "=" ++ Text.visible value
  | .list values => key ++ "=" ++ String.intercalate "|" values

def Field.summary (f : Field) : String :=
  let arguments := f.arguments.map fun (key, value) => value.summary key
  f.name ++ ": " ++ f.typeName
    ++ (if arguments.isEmpty then "" else " (" ++ String.intercalate ", " arguments ++ ")")
    ++ (if f.optional then " [optional]" else "")

def Schema.summary (s : Schema) : List String :=
  s!"  - {s.name} (line {s.line}, {s.fields.length} fields)"
    :: s.fields.map fun f => "      " ++ f.summary

def Action.summary (a : Action) : String :=
  let params := String.intercalate ", " a.params
  let count := (Text.lines a.body).length
  s!"  - {a.name}({params}) (line {a.line}, {count} body lines)"

def Step.summary : Step → String
  | .auth => "auth"
  | .validate schema => s!"validate({schema})"
  | .action name => name

def Route.summary (r : Route) : String :=
  "  - " ++ r.verb.spelling ++ " " ++ r.path ++ " => "
    ++ String.intercalate " -> " (r.pipeline.map Step.summary)

def Operation.summary : Operation → String
  | .addColumn table column typeName => s!"      add column {table}.{column}: {typeName}"
  | .dropColumn table column => s!"      drop column {table}.{column}"
  | .createTable table => s!"      create table {table}"
  | .dropTable table => s!"      drop table {table}"

def Migration.summary (m : Migration) : List String :=
  s!"  - {m.version} ({m.operations.length} ops)" :: m.operations.map Operation.summary

/-- The lines of a summary; the list of migrations stands only if there are
some. -/
def Tree.summaryLines (t : Tree) : List String :=
  s!"Schemas ({t.schemas.length})" :: t.schemas.flatMap Schema.summary
    ++ s!"\nActions ({t.actions.length})" :: t.actions.map Action.summary
    ++ s!"\nRoutes ({t.routes.length})" :: t.routes.map Route.summary
    ++ (if t.migrations.isEmpty then []
      else s!"\nMigrations ({t.migrations.length})" :: t.migrations.flatMap Migration.summary)

def Tree.summary (t : Tree) : String := String.intercalate "\n" t.summaryLines

end BlockLang
