import BlockLang.Text.Units
import BlockLang.Validation.Check
import BlockLang.Validation.Number

/-! # Guards

A check is a list of guards, tried in order on a value that is present. A guard that does not
accept a value says why.
-/

namespace BlockLang

inductive FailureKind where
  | notAnObject
  | missing
  | notString
  | tooShort
  | tooLong
  | notInEnum
  | patternMismatch
  | invalidFormat
  | notNumber
  | notInteger
  | belowMin
  | aboveMax
  deriving DecidableEq, Repr

inductive Guard where
  | isText
  | minLength (min : Double)
  | maxLength (max : Double)
  | oneOf (values : List String)
  | fits (pattern : Pattern)
  | hasFormat (format : Format) (pattern : Pattern)
  | isNumber
  | isWhole
  | atLeast (min : Double)
  | atMost (max : Double)
  deriving DecidableEq, Repr

namespace Guard

/-- A condition on texts, which values of another form do not fail. -/
def onText (test : String → Bool) : Json → Bool
  | .text s => test s
  | _ => true

def onNumber (test : Double → Bool) (value : Json) : Bool :=
  match value.toNumber with
  | .finite x => test x
  | _ => true

/-- Whether the guard accepts a value. -/
def accepts : Guard → Json → Bool
  | isText, value => match value with
    | .text _ => true
    | _ => false
  | minLength min, value => onText (fun s => ¬ Double.ofNat (Text.units s) < min) value
  | maxLength max, value => onText (fun s => ¬ max < Double.ofNat (Text.units s)) value
  | oneOf values, value => onText values.contains value
  | fits pattern, value => onText pattern.matchesIn value
  | hasFormat _ pattern, value => onText pattern.matchesIn value
  | isNumber, value => match value.toNumber with
    | .finite _ => true
    | _ => false
  | isWhole, value => onNumber Double.isWhole value
  | atLeast min, value => onNumber (fun x => ¬ x < min) value
  | atMost max, value => onNumber (fun x => ¬ max < x) value

def failure : Guard → FailureKind
  | isText => .notString
  | minLength _ => .tooShort
  | maxLength _ => .tooLong
  | oneOf _ => .notInEnum
  | fits _ => .patternMismatch
  | hasFormat _ _ => .invalidFormat
  | isNumber => .notNumber
  | isWhole => .notInteger
  | atLeast _ => .belowMin
  | atMost _ => .aboveMax

def message (field : String) : Guard → String
  | isText => s!"{field} must be a string"
  | minLength min => s!"{field} is too short (min {Code.number min})"
  | maxLength max => s!"{field} is too long (max {Code.number max})"
  | oneOf values => s!"{field} must be one of: " ++ String.intercalate ", " values
  | fits _ => s!"{field} does not match the required pattern"
  | hasFormat format _ => s!"{field} must be a valid {format.spelling}"
  | isNumber => s!"{field} must be a number"
  | isWhole => s!"{field} must be an integer"
  | atLeast min => s!"{field} must be at least {Code.number min}"
  | atMost max => s!"{field} must be at most {Code.number max}"

end Guard

namespace Check

def textGuards (c : Check) : List Guard :=
  [.isText] ++ (c.min.map .minLength).toList ++ (c.max.map .maxLength).toList
    ++ (c.allowed.map .oneOf).toList ++ (c.pattern.map .fits).toList
    ++ (c.format.map fun (format, pattern) => .hasFormat format pattern).toList

def numberGuards (c : Check) : List Guard :=
  [.isNumber] ++ (if c.kind = .integer then [.isWhole] else [])
    ++ (c.min.map .atLeast).toList ++ (c.max.map .atMost).toList

/-- The guards of a check, in the order in which they are tried. The first that
does not accept a value gives the error. -/
def guards (c : Check) : List Guard :=
  match c.kind with
  | .text => c.textGuards
  | .integer | .number => c.numberGuards
  | .boolean | .passthrough => []

end Check

end BlockLang
