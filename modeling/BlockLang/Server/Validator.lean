import BlockLang.Code.Name
import BlockLang.Code.Piece
import BlockLang.Validation.Record

/-! # Validators in generated code

A validator runs the guards of its checks in their order and throws at the first that fails.
-/

namespace BlockLang.Server

open Code

/-- The test for a value that a guard does not accept. -/
def refusal : Guard → String
  | .isText => "typeof value !== \"string\""
  | .minLength min => "value.length < " ++ number min
  | .maxLength max => "value.length > " ++ number max
  | .oneOf values => "!" ++ strings values ++ ".includes(value)"
  | .fits pattern | .hasFormat _ pattern => "!" ++ pattern.constructor ++ ".test(value)"
  | .isNumber => "!Number.isFinite(n)"
  | .isWhole => "!Number.isInteger(n)"
  | .atLeast min => "n < " ++ number min
  | .atMost max => "n > " ++ number max

def throwFailure (field message : String) : String :=
  "throw new ValidationFailure(" ++ field ++ ", " ++ string message ++ ");"

def guardLine (field : String) (guard : Guard) : Piece :=
  .line ("if (" ++ refusal guard ++ ") " ++ throwFailure (string field) (guard.message field))

def storeLine (field value : String) : Piece :=
  .line ("out[" ++ string field ++ "] = " ++ value ++ ";")

/-- The code for a value that is absent: it is stored as null, or the field is
reported as missing. -/
def absentLine (c : Check) : Piece :=
  if c.optional then storeLine c.field "null"
  else .line (throwFailure (string c.field) (missingMessage c.field))

def presentLines (c : Check) : List Piece :=
  let guards := c.guards.map (guardLine c.field)
  match c.kind with
  | .text | .passthrough => guards ++ [storeLine c.field "value"]
  | .integer | .number =>
    .line "const n = Number(value);" :: guards ++ [storeLine c.field "n"]
  | .boolean => guards ++ [storeLine c.field "Boolean(value)"]

def checkCode (c : Check) : List Piece :=
  block r"{"
    ([.line ("const value = input[" ++ string c.field ++ "];"),
      .opening r"if (value === undefined || value === null) {",
      absentLine c,
      .reopening r"} else {"]
      ++ presentLines c ++ [.closing r"}"])
    r"}"

def objectCode : List Piece :=
  block r#"if (input === null || typeof input !== "object" || Array.isArray(input)) {"#
    [.line (throwFailure "null" notAnObject.message)] r"}"

/-- The validator of a schema with the given checks. It gives a new object with
the declared fields and no others. -/
def validator (schema : String) (checks : List Check) : List Piece :=
  block ("export function " ++ validatorName schema ++ r"(input) {")
    (objectCode ++ [.line "const out = {};"] ++ checks.flatMap checkCode
      ++ [.line "return out;"]) r"}"

end BlockLang.Server
