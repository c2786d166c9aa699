import BlockLang.Code.Error
import BlockLang.Validation.Format
import BlockLang.Validation.Kind

/-! # Checks of fields

The constraints of a field, with its pattern and its format read once and for all. A pattern that
cannot be read, or a format that is not known, stops the generation of code.
-/

namespace BlockLang

/-- What the values of a field are checked for. -/
structure Check where
  field : String
  optional : Bool
  kind : Kind
  min : Option Double
  max : Option Double
  allowed : Option (List String)
  pattern : Option Pattern
  format : Option (Format × Pattern)
  deriving DecidableEq, Repr

namespace Field

def readPattern (schema : String) (f : Field) (text : String) : Except EmitError Pattern :=
  (Pattern.ofText text).mapError (.invalidPattern schema f.name)

def pattern? (schema : String) (f : Field) : Except EmitError (Option Pattern) :=
  (f.text? "pattern").mapM (f.readPattern schema)

/-- The name of the format of the field: its `format` argument, or else its type
if that is a format. -/
def formatName? (f : Field) : Option String :=
  f.text? "format" <|> (Format.ofName? f.typeName).map Format.spelling

def readFormat (schema : String) (f : Field) (name : String) :
    Except EmitError (Format × Pattern) := do
  match Format.ofName? name with
  | none => .error (.unknownFormat schema f.name name)
  | some format => return (format, ← f.readPattern schema format.pattern)

def format? (schema : String) (f : Field) : Except EmitError (Option (Format × Pattern)) :=
  f.formatName?.mapM (f.readFormat schema)

/-- The check of the field. Only texts have patterns and formats; those of other
fields are not even read. -/
def check (schema : String) (f : Field) : Except EmitError Check := do
  let isText := f.kind = .text
  return {
    field := f.name
    optional := f.optional
    kind := f.kind
    min := f.number? "min"
    max := f.number? "max"
    allowed := f.enum?
    pattern := ← if isText then f.pattern? schema else pure none
    format := ← if isText then f.format? schema else pure none }

end Field

def Schema.checks (s : Schema) : Except EmitError (List Check) := s.fields.mapM (Field.check s.name)

end BlockLang
