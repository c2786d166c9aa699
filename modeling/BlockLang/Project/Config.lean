import BlockLang.Json.Reader
import BlockLang.Json.Writer
import BlockLang.Server

/-! # Project configurations

A configuration is written as a JSON object. When it is read, all fields but the version may be
missing, other keys count for nothing, and an array of the fields in their order is read too.
-/

namespace BlockLang

/-- How a project is built. Paths are relative to the root of the project. -/
structure Config where
  version : Nat := 1
  entry : String := "main.bs"
  outDir : String := "generated"
  dialect : Dialect := .sqlite
  serverFile : String := "server.js"
  typesFile : String := "types.d.ts"
  /-- Whether the type declarations are written. -/
  emitTypes : Bool := true
  runtimeModule : String := "blocksmith/runtime"
  deriving DecidableEq, Repr

namespace Config

def supportedVersion : Nat := 1

def emitOptions (c : Config) : EmitOptions where
  dialect := c.dialect
  runtimeModule := c.runtimeModule

/-- A configuration as an object, its fields in their order, which is not the
order of their keys. -/
def toJson (c : Config) : Json :=
  .object [("version", .whole c.version), ("entry", .text c.entry), ("out_dir", .text c.outDir),
    ("dialect", .text c.dialect.spelling), ("server_file", .text c.serverFile),
    ("types_file", .text c.typesFile), ("emit_types", .bool c.emitTypes),
    ("runtime_module", .text c.runtimeModule)]

inductive Key where
  | version
  | entry
  | outDir
  | dialect
  | serverFile
  | typesFile
  | emitTypes
  | runtimeModule
  deriving DecidableEq, Repr

namespace Key

def all : List Key :=
  [version, entry, outDir, dialect, serverFile, typesFile, emitTypes, runtimeModule]

def spelling : Key → String
  | version => "version"
  | entry => "entry"
  | outDir => "out_dir"
  | dialect => "dialect"
  | serverFile => "server_file"
  | typesFile => "types_file"
  | emitTypes => "emit_types"
  | runtimeModule => "runtime_module"

def ofSpelling? (name : String) : Option Key := all.find? (·.spelling = name)

end Key

def text? : Json.Syntax → Option String
  | .string value => value
  | _ => none

/-- The version that a piece of JSON text is: a whole number of 32 bits. -/
def version? : Json.Syntax → Option Nat
  | .scalar (some (.whole n)) => if 0 ≤ n ∧ n < Nat.pow 2 32 then some n.toNat else none
  | _ => none

def flag? : Json.Syntax → Option Bool
  | .scalar (some (.bool value)) => some value
  | _ => none

/-- The dialect that a piece of JSON text is: its name, or an object with its
name as the only key and null as its value. -/
def dialect? : Json.Syntax → Option Dialect
  | .string value => value.bind Dialect.ofSpelling?
  | .object [(key, .scalar (some .null))] => key.bind Dialect.ofSpelling?
  | _ => none

def setField? (c : Config) (key : Key) (value : Json.Syntax) : Option Config :=
  match key with
  | .version => (version? value).map fun version => { c with version }
  | .entry => (text? value).map fun entry => { c with entry }
  | .outDir => (text? value).map fun outDir => { c with outDir }
  | .dialect => (dialect? value).map fun dialect => { c with dialect }
  | .serverFile => (text? value).map fun serverFile => { c with serverFile }
  | .typesFile => (text? value).map fun typesFile => { c with typesFile }
  | .emitTypes => (flag? value).map fun emitTypes => { c with emitTypes }
  | .runtimeModule => (text? value).map fun runtimeModule => { c with runtimeModule }

/-- Read the fields of an object, of which some have been seen. -/
def readMembers (c : Config) (seen : List Key) :
    List (Option String × Json.Syntax) → Option Config
  | [] => if .version ∈ seen then some c else none
  | (name, value) :: rest => do
    match Key.ofSpelling? (← name) with
    | none => readMembers c seen rest
    | some key =>
      if key ∈ seen then none else readMembers (← c.setField? key value) (key :: seen) rest

/-- Read fields in the order of the given keys. -/
def readItems (c : Config) : List Key → List Json.Syntax → Option Config
  | _, [] => some c
  | [], _ :: _ => none
  | key :: keys, value :: rest => do readItems (← c.setField? key value) keys rest

/-- The configuration that a JSON text stands for. -/
def read? (text : String) : Option Config := do
  match ← Json.Syntax.read? text with
  | .object members => readMembers {} [] members
  | .array items => if items.isEmpty then none else readItems {} Key.all items
  | _ => none

end Config

end BlockLang
