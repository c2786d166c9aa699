import BlockLang.Code.Error
import BlockLang.Sql.Statements

/-! # Statements of migrations

Each operation becomes one statement. A table is created with the columns of the schema of its
name.
-/

namespace BlockLang

/-- The statement of an operation of the migration with the given version. Only
creating a table can fail, for want of a schema. -/
def Operation.statement (d : Dialect) (t : Tree) (version : String) :
    Operation → Except EmitError String
  | .addColumn table column typeName =>
    .ok ("ALTER TABLE " ++ Sql.identifier table ++ " ADD COLUMN " ++ Sql.identifier column ++ " "
      ++ d.columnType (.ofTypeName typeName))
  | .dropColumn table column =>
    .ok ("ALTER TABLE " ++ Sql.identifier table ++ " DROP COLUMN " ++ Sql.identifier column)
  | .createTable table =>
    match t.schema? table with
    | some schema => .ok (Statements.creation d schema)
    | none => .error (.unknownTable version table)
  | .dropTable table => .ok ("DROP TABLE IF EXISTS " ++ Sql.identifier table)

def Migration.statements (d : Dialect) (t : Tree) (m : Migration) :
    Except EmitError (List String) :=
  m.operations.mapM (Operation.statement d t m.version)

end BlockLang
