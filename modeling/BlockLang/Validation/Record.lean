import BlockLang.Validation.Guard

/-! # Validating records

A record is validated field by field; the first failure is reported. What is not declared is
dropped, and a value that is absent is stored as null if the field is optional.
-/

namespace BlockLang

structure Failure where
  /-- The field at fault, or none if the record itself is. -/
  field : Option String
  kind : FailureKind
  message : String
  deriving DecidableEq, Repr

def Failure.status : Nat := 400

def notAnObject : Failure := ⟨none, .notAnObject, "Request body must be an object"⟩

def missingMessage (field : String) : String := s!"Missing required field: {field}"

/-- A value that has passed its guards, as it is stored. A number keeps the form
in which it was given, and what only stands for a number becomes one. -/
def Kind.store (kind : Kind) (value : Json) : Json :=
  match kind with
  | .text | .passthrough => value
  | .boolean => .bool value.toBool
  | .integer | .number =>
    if value.isNumber then value
    else match value.toNumber with
      | .finite x => .ofDouble x
      | _ => .null

namespace Check

/-- The value to store for a value that is present, unless a guard refuses
it. -/
def applyPresent (c : Check) (value : Json) : Except Failure Json :=
  match c.guards.find? (!·.accepts value) with
  | some guard => .error ⟨some c.field, guard.failure, guard.message c.field⟩
  | none => .ok (c.kind.store value)

def applyAbsent (c : Check) : Except Failure Json :=
  if c.optional then .ok .null else .error ⟨some c.field, .missing, missingMessage c.field⟩

def apply (c : Check) (value : Option Json) : Except Failure Json :=
  match value with
  | none | some .null => c.applyAbsent
  | some value => c.applyPresent value

end Check

/-- The record to store for the members of a request, starting from a part of
it. -/
def validateMembers (members : Json.Members) (record : Json.Members) :
    List Check → Except Failure Json.Members
  | [] => .ok record
  | c :: rest =>
    match c.apply (members.lookup c.field) with
    | .error failure => .error failure
    | .ok value => validateMembers members (Json.Members.insert c.field value record) rest

/-- The record to store for a request. It has the declared fields and no others,
and its keys are in order. -/
def validate (checks : List Check) (input : Json) : Except Failure Json.Members :=
  match input with
  | .object members => validateMembers members [] checks
  | _ => .error notAnObject

end BlockLang
