/-! # Names in generated code

For every schema the server module declares a validator, statements, a list of columns and a
builder of list queries, under names made from the name of the schema.
-/

namespace BlockLang.Code

def validatorName (schema : String) : String := "validate" ++ schema

def statementsName (schema : String) : String := schema ++ "Statements"

def columnsName (schema : String) : String := schema ++ "Columns"

def listQueryName (schema : String) : String := "list" ++ schema ++ "Query"

/-- The names that the server module declares for a schema, in the order in
which it declares them. -/
def schemaNames (schema : String) : List String :=
  [validatorName schema, statementsName schema, columnsName schema, listQueryName schema]

def header : String := "// Generated by blocksmith. Do not edit."

end BlockLang.Code
