import BlockLang.Code.Literal
import BlockLang.Code.Name
import BlockLang.Code.Piece
import BlockLang.Validation.Kind

/-! # Type declarations

An interface for every schema describes the records of its table, for tools that read TypeScript.
-/

namespace BlockLang

namespace Server

open Code

def fieldType (t : Tree) (f : Field) : String :=
  match f.enum? with
  | some values => String.intercalate " | " (values.map string)
  | none =>
    match f.kind with
    | .text => "string"
    | .integer | .number => "number"
    | .boolean => "boolean"
    | .passthrough => if (t.schema? f.typeName).isSome then f.typeName else "unknown"

def isPropertyStart (c : Char) : Bool := c.isAlpha || c == '_' || c == '$'

/-- A property name, quoted unless it is a plain word. -/
def propertyName (name : String) : String :=
  if name.toList.head?.any isPropertyStart
      && name.toList.all (fun c => isPropertyStart c || c.isDigit) then name
  else string name

def fieldLine (t : Tree) (f : Field) : Piece :=
  if f.optional then .line (propertyName f.name ++ "?: " ++ fieldType t f ++ " | null;")
  else .line (propertyName f.name ++ ": " ++ fieldType t f ++ ";")

def interfaceCode (t : Tree) (s : Schema) : List Piece :=
  block ("export interface " ++ s.name ++ r" {")
    (.line (keyColumn ++ ": number;") :: s.dataFields.map (fieldLine t)) r"}"

def schemaNameType (schemas : List Schema) : List Piece :=
  if schemas.isEmpty then []
  else
    let names := schemas.map fun s => string s.name
    [.blank, .line ("export type SchemaName = " ++ String.intercalate " | " names ++ ";")]

def typePieces (t : Tree) : List Piece :=
  .line header :: t.schemas.flatMap (fun s => .blank :: interfaceCode t s)
    ++ schemaNameType t.schemas

end Server

/-- The type declarations of a tree. -/
def Tree.types (t : Tree) : String := Code.render (Server.typePieces t)

end BlockLang
