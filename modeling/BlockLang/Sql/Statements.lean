import BlockLang.Sql.Dialect

/-! # Statements on the table of a schema

The key is generated by the engine, so insertions and updates write the other columns, in the
order of the schema, and parameter `i` is the value of column `i`.
-/

namespace BlockLang

structure Statements where
  insert : String
  /-- There is no update of a table without columns to write. -/
  update : Option String
  delete : String
  findByKey : String
  createTable : String
  deriving DecidableEq, Repr

namespace Statements

def columnDefinition (d : Dialect) (f : Field) : String :=
  Sql.identifier f.name ++ " " ++ d.columnType f.kind ++ (if f.optional then "" else " NOT NULL")

def creation (d : Dialect) (s : Schema) : String :=
  "CREATE TABLE IF NOT EXISTS " ++ Sql.identifier s.name ++ " ("
    ++ String.intercalate ", " (d.keyDefinition :: s.dataFields.map (columnDefinition d)) ++ ")"

def placeholders (d : Dialect) (count : Nat) : List String :=
  (List.range count).map fun i => d.placeholder (i + 1)

/-- What is inserted into a table with these columns. A table that has only its
key gets its default values. -/
def insertion (d : Dialect) (columns : List String) : String :=
  if columns.isEmpty then "DEFAULT VALUES"
  else "(" ++ String.intercalate "," (columns.map Sql.identifier) ++ ") VALUES ("
    ++ String.intercalate "," (placeholders d columns.length) ++ ")"

/-- The assignments of an update: each column gets its parameter, counted from
one in the order of the columns. -/
def assignments (d : Dialect) (columns : List String) : List String :=
  List.zipWith (fun column parameter => Sql.identifier column ++ "=" ++ parameter) columns
    (placeholders d columns.length)

/-- The statements on the table of a schema. -/
def ofSchema (d : Dialect) (s : Schema) : Statements :=
  let table := Sql.identifier s.name
  let columns := s.dataColumns
  let whereKey := fun index => " WHERE " ++ keyColumn ++ "=" ++ d.placeholder index
  { insert := "INSERT INTO " ++ table ++ " " ++ insertion d columns
      ++ (if d.returnsKey then " RETURNING " ++ keyColumn else "")
    update := if columns.isEmpty then none
      else some ("UPDATE " ++ table ++ " SET " ++ String.intercalate "," (assignments d columns)
        ++ whereKey (columns.length + 1))
    delete := "DELETE FROM " ++ table ++ whereKey 1
    findByKey := "SELECT * FROM " ++ table ++ whereKey 1
    createTable := creation d s }

end Statements

end BlockLang
