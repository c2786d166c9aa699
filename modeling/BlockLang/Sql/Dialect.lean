import BlockLang.Validation.Kind

/-! # SQL dialects

What the supported engines write differently: parameters, column types, the key column, and how
the key of a new row is returned.
-/

namespace BlockLang

inductive Dialect where
  | sqlite
  | postgres
  deriving DecidableEq, Repr, Inhabited

namespace Dialect

def all : List Dialect := [sqlite, postgres]

def spelling : Dialect → String
  | sqlite => "sqlite"
  | postgres => "postgres"

def ofSpelling? (name : String) : Option Dialect := all.find? (·.spelling = name)

theorem ofSpelling?_spelling (d : Dialect) : ofSpelling? d.spelling = some d := by
  cases d <;> decide

def placeholder : Dialect → Nat → String
  | sqlite, _ => "?"
  | postgres, index => s!"${index}"

/-- Whether an insertion has to ask for the key of the new row. -/
def returnsKey : Dialect → Bool
  | sqlite => false
  | postgres => true

def columnType : Dialect → Kind → String
  | sqlite, .integer | sqlite, .boolean => "INTEGER"
  | sqlite, .number => "REAL"
  | sqlite, .text | sqlite, .passthrough => "TEXT"
  | postgres, .integer => "INTEGER"
  | postgres, .number => "DOUBLE PRECISION"
  | postgres, .boolean => "BOOLEAN"
  | postgres, .text => "TEXT"
  | postgres, .passthrough => "JSONB"

def keyDefinition : Dialect → String
  | sqlite => "id INTEGER PRIMARY KEY AUTOINCREMENT"
  | postgres => "id SERIAL PRIMARY KEY"

end Dialect

namespace Sql

/-- The characters of an identifier as they stand between its quotes: a quote is
doubled. -/
def doubleQuotes (cs : List Char) : List Char :=
  cs.flatMap fun c => if c = '"' then ['"', '"'] else [c]

def identifier (name : String) : String :=
  String.ofList ('"' :: doubleQuotes name.toList ++ ['"'])

end Sql

end BlockLang
