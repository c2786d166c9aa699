import BlockLang.Decimal.Shortest

/-! # Writing doubles

The digits of a double are fixed up to a tie; a layout says how a tie goes, which exponents are
written out positionally and whether a whole number keeps a fraction.
-/

namespace BlockLang.Decimal

/-- The decisions of a format for doubles: ties, when digits are written out,
and what a whole number looks like. -/
structure Layout where
  tie : Tie
  /-- Whether a value with this exponent of its leading digit is written positionally. -/
  positional : Int → Bool
  /-- Whether a whole number written positionally ends in `.0`. -/
  keepsFraction : Bool

/-- Every value is written positionally and whole numbers have no fraction. -/
def plain : Layout where
  tie := .up
  positional := fun _ => true
  keepsFraction := false

/-- Digits written positionally, the last of them being worth `10 ^
exponent`. -/
def writePositional (keepsFraction : Bool) (digits : List Char) (exponent : Int) : String :=
  if 0 ≤ exponent then
    String.ofList (digits ++ List.replicate exponent.toNat '0')
      ++ (if keepsFraction then ".0" else "")
  else
    let places := (-exponent).toNat
    if places < digits.length then
      String.ofList (digits.take (digits.length - places)) ++ "."
        ++ String.ofList (digits.drop (digits.length - places))
    else "0." ++ String.ofList (List.replicate (places - digits.length) '0' ++ digits)

def writeScientific (digits : List Char) (leading : Int) : String :=
  let mantissa := match digits with
    | [] => ""
    | [d] => String.ofList [d]
    | d :: rest => String.ofList (d :: '.' :: rest)
  mantissa ++ (if leading < 0 then "e-" else "e+") ++ toString leading.natAbs

def Layout.write (layout : Layout) (x : Double) : String :=
  let sign := if x.negative then "-" else ""
  if x.isZero then sign ++ (if layout.keepsFraction then "0.0" else "0")
  else
    let shortest := shortest layout.tie x.steps
    let digits := Nat.toDigits 10 shortest.digits
    let leading := shortest.exponent + digits.length - 1
    if layout.positional leading then
      sign ++ writePositional layout.keepsFraction digits shortest.exponent
    else sign ++ writeScientific digits leading

def writeReading : Reading → String
  | .finite value => plain.write value
  | .infinite true => "-inf"
  | .infinite false => "inf"
  | .notANumber => "NaN"

end BlockLang.Decimal
