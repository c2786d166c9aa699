import BlockLang.Decimal.Layout
import BlockLang.Tree.Verb

/-! # Syntax trees

What the blocks of a source declare, in the order of the source. The tree of a project is the
merge of the trees of its files and declares no imports.
-/

namespace BlockLang

inductive Argument where
  | number (value : Double)
  | text (value : String)
  | list (values : List String)
  deriving DecidableEq, Repr

/-- The arguments of a field by key, each key at the place where it first
stood. -/
abbrev Arguments := List (String × Argument)

/-- Arguments with `key` set to `value`: at its place if there is one, else at
the end. -/
def Arguments.insert (key : String) (value : Argument) : Arguments → Arguments
  | [] => [(key, value)]
  | (k, v) :: rest =>
    if k = key then (k, value) :: rest else (k, v) :: Arguments.insert key value rest

/-- The key of the values that stand in the parentheses of a field without a
key. -/
def enumKey : String := "enum"

structure Field where
  name : String
  typeName : String
  optional : Bool
  arguments : Arguments
  deriving DecidableEq, Repr

namespace Field

def number? (f : Field) (key : String) : Option Double :=
  match f.arguments.lookup key with
  | some (.number value) => some value
  | _ => none

/-- The argument of a key as a text, unless it is a list. -/
def text? (f : Field) (key : String) : Option String :=
  match f.arguments.lookup key with
  | some (.number value) => some (Decimal.plain.write value)
  | some (.text value) => some value
  | _ => none

def enum? (f : Field) : Option (List String) :=
  match f.arguments.lookup enumKey with
  | some (.list values) => some values
  | _ => none

end Field

/-- A `data` block: a record type and the table of its records. -/
structure Schema where
  name : String
  fields : List Field
  line : Nat
  deriving DecidableEq, Repr

def keyColumn : String := "id"

namespace Schema

def field? (s : Schema) (name : String) : Option Field := s.fields.find? (·.name = name)

/-- The fields that are written from requests: all but the key. A field that is
declared under its name is left out. -/
def dataFields (s : Schema) : List Field := s.fields.filter (·.name ≠ keyColumn)

def dataColumns (s : Schema) : List String := s.dataFields.map (·.name)

/-- The columns that a query may name: the key and all others. -/
def columns (s : Schema) : List String := keyColumn :: s.dataColumns

end Schema

/-- A `do` block: a function whose body is copied from the source, but for
blanks at its ends. -/
structure Action where
  name : String
  params : List String
  body : String
  line : Nat
  deriving DecidableEq, Repr

inductive Step where
  | auth
  | validate (schema : String)
  | action (name : String)
  deriving DecidableEq, Repr

/-- An entry of a `route` block: what a request runs through. -/
structure Route where
  verb : Verb
  path : String
  pipeline : List Step
  line : Nat
  deriving DecidableEq, Repr

namespace Route

/-- What tells routes apart. Of several routes with one key, the first
counts. -/
def key (r : Route) : Verb × String := (r.verb, r.path)

def actions (r : Route) : List String :=
  r.pipeline.filterMap fun
    | .action name => some name
    | .auth | .validate _ => none

end Route

inductive Operation where
  | addColumn (table column typeName : String)
  | dropColumn (table column : String)
  | createTable (table : String)
  | dropTable (table : String)
  deriving DecidableEq, Repr

def Operation.table : Operation → String
  | .addColumn table _ _ | .dropColumn table _ | .createTable table | .dropTable table => table

structure Migration where
  version : String
  operations : List Operation
  line : Nat
  deriving DecidableEq, Repr

structure Import where
  path : String
  line : Nat
  deriving DecidableEq, Repr

structure Tree where
  schemas : List Schema := []
  actions : List Action := []
  routes : List Route := []
  migrations : List Migration := []
  imports : List Import := []
  deriving DecidableEq, Repr, Inhabited

namespace Tree

def schema? (t : Tree) (name : String) : Option Schema := t.schemas.find? (·.name = name)

def action? (t : Tree) (name : String) : Option Action := t.actions.find? (·.name = name)

def isEmpty (t : Tree) : Bool :=
  t.schemas.isEmpty && t.actions.isEmpty && t.routes.isEmpty && t.migrations.isEmpty
    && t.imports.isEmpty

/-- The declarations of one tree followed by those of another. -/
def append (t u : Tree) : Tree where
  schemas := t.schemas ++ u.schemas
  actions := t.actions ++ u.actions
  routes := t.routes ++ u.routes
  migrations := t.migrations ++ u.migrations
  imports := t.imports ++ u.imports

instance : Append Tree := ⟨append⟩

end Tree

end BlockLang
