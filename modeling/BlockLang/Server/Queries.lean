import BlockLang.Code.Literal
import BlockLang.Code.Name
import BlockLang.Code.Piece
import BlockLang.Sql.Statements

/-! # Statements in generated code

Every schema exports its columns, its statements and a function that builds list queries. The
function refuses names that are no columns.
-/

namespace BlockLang.Server

open Code

/-- The placeholder of the parameter pushed last, inside a template. -/
def lastPlaceholder : Dialect → String
  | .sqlite => "?"
  | .postgres => "$${values.length}"

/-- The code that refuses a column. -/
def columnGuard (schema column what : String) : List Piece :=
  block ("if (!" ++ columnsName schema ++ ".includes(" ++ column ++ r")) {")
    [.line ("throw new ValidationFailure(" ++ column ++ ", `Unknown " ++ what ++ " column: "
      ++ r"${" ++ column ++ r"}`);")]
    r"}"

def filterCode (d : Dialect) (schema : String) : List Piece :=
  block r"for (const [column, value] of Object.entries(filters)) {"
    (columnGuard schema "column" "filter"
      ++ [.line "values.push(value);",
        .line ("clauses.push(`\"${column}\"=" ++ lastPlaceholder d ++ "`);")])
    r"}"

def sortCode (schema : String) : List Piece :=
  block r"if (sort) {"
    (columnGuard schema "sort.field" "sort"
      ++ [.line ("sql += ` ORDER BY \"${sort.field}\" " ++
        r#"${sort.direction === "desc" ? "DESC" : "ASC"}`;"#)])
    r"}"

def listBuilder (d : Dialect) (schema : String) : List Piece :=
  block ("export function " ++ listQueryName schema ++ r"(filters = {}, sort = null) {")
    ([.line "const clauses = [];", .line "const values = [];"] ++ filterCode d schema
      ++ [.line ("let sql = " ++ string ("SELECT * FROM " ++ Sql.identifier schema) ++ ";"),
        .line "if (clauses.length > 0) sql += \" WHERE \" + clauses.join(\" AND \");"]
      ++ sortCode schema ++ [.line "return { sql, values };"])
    r"}"

def statementsObject (schema : String) (s : Statements) : List Piece :=
  let update := match s.update with
    | some text => string text
    | none => "null"
  block ("export const " ++ statementsName schema ++ r" = Object.freeze({")
    [.line ("insert: " ++ string s.insert ++ ","),
      .line ("update: " ++ update ++ ","),
      .line ("delete: " ++ string s.delete ++ ","),
      .line ("findByKey: " ++ string s.findByKey ++ ","),
      .line ("createTable: " ++ string s.createTable ++ ",")]
    r"});"

/-- All that a schema exports for its table. -/
def queries (d : Dialect) (s : Schema) : List Piece :=
  [.line ("export const " ++ columnsName s.name ++ " = Object.freeze(" ++ strings s.columns
      ++ ");"), .blank]
    ++ statementsObject s.name (.ofSchema d s) ++ [.blank] ++ listBuilder d s.name

end BlockLang.Server
