import BlockLang.Tree.Basic

/-! # Kinds of values

The type name of a field decides how its values are checked and stored. Type names are read in
any case of ASCII letters, and a name that is not known, such as that of another schema, lets
every value pass.
-/

namespace BlockLang

/-- How the value of a field is checked and stored. -/
inductive Kind where
  | text
  | integer
  | number
  | boolean
  | passthrough
  deriving DecidableEq, Repr

namespace Kind

def typeNames : Kind → List String
  | text => ["string", "text", "password", "date", "datetime", "enum", "email", "url", "uuid"]
  | integer => ["int", "integer"]
  | number => ["number", "float", "decimal", "double"]
  | boolean => ["boolean", "bool"]
  | passthrough => []

def ofTypeName (typeName : String) : Kind :=
  let name := typeName.map Char.toLower
  ([text, integer, number, boolean].find? (·.typeNames.contains name)).getD passthrough

def spelling : Kind → String
  | text => "text"
  | integer => "integer"
  | number => "number"
  | boolean => "boolean"
  | passthrough => "passthrough"

end Kind

/-- The kind of a field; a field with listed values is a text, whatever its type
name. -/
def Field.kind (f : Field) : Kind :=
  if f.enum?.isSome then .text else .ofTypeName f.typeName

end BlockLang
