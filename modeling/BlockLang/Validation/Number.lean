import BlockLang.Decimal.Numeral
import BlockLang.Json.Value
import BlockLang.Text.Blank

/-! # Numbers and truth values from JSON values

Requests may give numbers as texts, as truth values or as nothing, and truth values as anything.
-/

namespace BlockLang.Json

/-- The number that a text stands for; a text of blanks only is zero. -/
def numberOfText (s : String) : Reading :=
  let trimmed := Text.trim s
  if trimmed.isEmpty then .finite (.ofNat 0) else (Decimal.read? trimmed).getD .notANumber

/-- The number that a value stands for. A text is read as a numeral, and arrays
and objects stand for none. -/
def toNumber : Json → Reading
  | .null => .finite (.ofNat 0)
  | .bool b => .finite (.ofNat b.toNat)
  | .whole i => ((Double.ofInt? i).map Reading.finite).getD .notANumber
  | .double x => .finite x
  | .text s => numberOfText s
  | .array _ | .object _ => .notANumber

/-- The truth value that a value stands for: zero, the empty text and nothing
are false as `false` itself is, and all else is true. -/
def toBool : Json → Bool
  | .null => false
  | .bool b => b
  | .whole i => i != 0
  | .double x => !x.isZero
  | .text s => !s.isEmpty
  | .array _ | .object _ => true

/-- A finite number as a value: a whole number if it is one of at most 53
bits. -/
def ofDouble (x : Double) : Json :=
  if x.isWhole && x.steps < Nat.pow 2 53 * Double.one then .whole x.toInt else .double x

def isNumber : Json → Bool
  | .whole _ | .double _ => true
  | _ => false

end BlockLang.Json
