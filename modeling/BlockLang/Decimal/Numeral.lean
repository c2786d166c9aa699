import BlockLang.Decimal.Double

/-! # Reading decimal numerals

A numeral is an optional sign, digits with an optional point among or around them, and an
optional exponent. It reads as the nearest double. The words for infinity and for a value that
is no number are numerals too, in any case of letters.
-/

namespace BlockLang

inductive Reading where
  | finite (value : Double)
  | infinite (negative : Bool)
  | notANumber
  deriving DecidableEq, Repr

namespace Decimal

def digitsValue (cs : List Char) : Nat :=
  cs.foldl (fun n c => 10 * n + (c.toNat - '0'.toNat)) 0

/-- The number of decimal digits of a number, zero having none. -/
def digitCount (n : Nat) : Nat :=
  if h : n = 0 then 0 else digitCount (n / 10) + 1
termination_by n
decreasing_by omega

/-- The double nearest to `digits · 10 ^ exponent`, or none when that is not
finite. -/
def toDouble? (negative : Bool) (digits : Nat) (exponent : Int) : Option Double :=
  let magnitude := exponent + digitCount digits
  -- Past these bounds the result is settled, and the power of ten is never computed.
  if digits = 0 ∨ magnitude < -330 then some ⟨negative, 0⟩
  else if magnitude > 310 then none
  else if 0 ≤ exponent then
    Double.round? negative (digits * Nat.pow 10 exponent.toNat * Double.one) 1
  else Double.round? negative (digits * Double.one) (Nat.pow 10 (-exponent).toNat)

def splitSign : List Char → Bool × List Char
  | '-' :: rest => (true, rest)
  | '+' :: rest => (false, rest)
  | rest => (false, rest)

/-- The exponent part of a numeral, which must reach its end: nothing, or a mark
with digits. -/
def readExponent? : List Char → Option Int
  | [] => some 0
  | mark :: rest =>
    if mark = 'e' ∨ mark = 'E' then
      let (negative, digits) := splitSign rest
      if digits.isEmpty ∨ !digits.all Char.isDigit then none
      else if negative then some (-(digitsValue digits : Int))
      else some (digitsValue digits)
    else none

/-- The digits after the point of a numeral, and what follows them. -/
def splitFraction : List Char → List Char × List Char
  | '.' :: rest => rest.span Char.isDigit
  | rest => ([], rest)

def readDigits? (negative : Bool) (cs : List Char) : Option Reading := do
  let (whole, rest) := cs.span Char.isDigit
  let (fraction, rest) := splitFraction rest
  let exponent ← readExponent? rest
  if whole.isEmpty ∧ fraction.isEmpty then none
  else
    match toDouble? negative (digitsValue (whole ++ fraction)) (exponent - fraction.length) with
    | some value => some (.finite value)
    | none => some (.infinite negative)

def read? (s : String) : Option Reading :=
  let (negative, rest) := splitSign s.toList
  let word := rest.map Char.toLower
  if word = "inf".toList ∨ word = "infinity".toList then some (.infinite negative)
  else if word = "nan".toList then some .notANumber
  else readDigits? negative rest

def readFinite? (s : String) : Option Double :=
  match read? s with
  | some (.finite value) => some value
  | _ => none

end Decimal

end BlockLang
