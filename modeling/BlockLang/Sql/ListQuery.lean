import BlockLang.Code.Error
import BlockLang.Sql.Statements

/-! # Queries for lists of rows

A query may filter by columns of the schema and sort by one of them. A name that is no column
never gets into a query.
-/

namespace BlockLang

inductive Direction where
  | ascending
  | descending
  deriving DecidableEq, Repr

namespace Direction

def keyword : Direction → String
  | ascending => "ASC"
  | descending => "DESC"

def spelling : Direction → String
  | ascending => "asc"
  | descending => "desc"

/-- The direction that a word spells, in any case of letters. -/
def ofWord? (word : String) : Option Direction :=
  [ascending, descending].find? (·.spelling = word.map Char.toLower)

end Direction

structure RowOrder where
  field : String
  direction : Direction
  deriving DecidableEq, Repr

/-- What stands before and behind the last colon of a text. -/
def splitLastColon? (cs : List Char) : Option (List Char × List Char) :=
  match cs.reverse.span (· != ':') with
  | (_, []) => none
  | (behind, _ :: before) => some (before.reverse, behind.reverse)

/-- Read a field with an optional direction behind a colon. -/
def RowOrder.ofText (text : String) : RowOrder :=
  match splitLastColon? text.toList with
  | none => ⟨text, .ascending⟩
  | some (field, word) =>
    match Direction.ofWord? (String.ofList word) with
    | some direction => ⟨String.ofList field, direction⟩
    | none => ⟨text, .ascending⟩

namespace Schema

def checkColumn (s : Schema) (column : String) : Except EmitError Unit :=
  if column ∈ s.columns then .ok () else .error (.unknownColumn s.name column)

/-- The conditions of a query: each filter column equals its parameter. -/
def conditions (d : Dialect) (filters : List String) : String :=
  if filters.isEmpty then ""
  else " WHERE " ++ String.intercalate " AND " (Statements.assignments d filters)

def ordering : Option RowOrder → String
  | none => ""
  | some sort => " ORDER BY " ++ Sql.identifier sort.field ++ " " ++ sort.direction.keyword

/-- The query for the rows of the table, filtered by some columns and sorted. -/
def listQuery (d : Dialect) (s : Schema) (filters : List String) (sort : Option RowOrder) :
    Except EmitError String := do
  filters.forM s.checkColumn
  (sort.map RowOrder.field).forM s.checkColumn
  return "SELECT * FROM " ++ Sql.identifier s.name ++ conditions d filters ++ ordering sort

end Schema

end BlockLang
