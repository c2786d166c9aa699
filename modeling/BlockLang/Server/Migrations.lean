import BlockLang.Code.Literal
import BlockLang.Code.Piece
import BlockLang.Sql.Migration

/-! # Migrations in generated code -/

namespace BlockLang.Server

open Code

def migrationObject (version : String) (statements : List String) : List Piece :=
  block r"{"
    (.line ("version: " ++ string version ++ ",")
      :: block "statements: [" (statements.map fun s => .line (string s ++ ",")) "],")
    r"},"

/-- The list of migrations, each given by its version and its statements. -/
def migrationList (migrations : List (String × List String)) : List Piece :=
  if migrations.isEmpty then [.line "export const migrations = Object.freeze([]);"]
  else
    block "export const migrations = Object.freeze(["
      (migrations.flatMap fun (version, statements) => migrationObject version statements) "]);"

end BlockLang.Server
