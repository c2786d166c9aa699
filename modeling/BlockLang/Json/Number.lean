import BlockLang.Decimal.Numeral
import BlockLang.Json.Value

/-! # Numbers in JSON text

A whole number that fits 64 bits, signed or not, stays whole, except a negative zero. Every other
number is a double: the leading digits that fit 64 bits, rounded, times or over a rounded power of
ten. A number beyond the doubles has no value.
-/

namespace BlockLang.Json

/-- The first number that does not fit 64 bits. -/
def wordLimit : Nat := Nat.pow 2 64

/-- The leading digits of a numeral that fit 64 bits together with those read
before, as a number, and how many they are. -/
def significand (before : Nat) : List Char → Nat × Nat
  | [] => (before, 0)
  | c :: rest =>
    let next := 10 * before + (c.toNat - '0'.toNat)
    if next < wordLimit then
      let (value, taken) := significand next rest
      (value, taken + 1)
    else (before, 0)

def powerOfTen? (exponent : Nat) : Option Double := Decimal.toDouble? false 1 exponent

/-- A double times a power of ten, rounded at each multiplication or
division. -/
def scale? (x : Double) (exponent : Int) : Option Double :=
  if exponent.natAbs ≤ 308 then do
    let power ← powerOfTen? exponent.natAbs
    if 0 ≤ exponent then x.mul? power else x.div? power
  else if x.isZero then some x
  else if h : 0 ≤ exponent then none
  else do
    let power ← powerOfTen? 308
    let smaller ← x.div? power
    scale? smaller (exponent + 308)
termination_by (-exponent).toNat
decreasing_by omega

def numeralDouble? (negative : Bool) (whole fraction : List Char) (exponent : Int) :
    Option Double := do
  let (head, wholeTaken) := significand 0 whole
  let (digits, fractionTaken) := significand head fraction
  let start ← Double.ofInt? digits
  let value ← scale? start (exponent + (whole.length - wholeTaken : Nat) - fractionTaken)
  return { value with negative }

/-- The value of a numeral without point and exponent: a whole number if it fits
64 bits, and else a double. A zero with a sign is a double. -/
def ofWholeDigits? (negative : Bool) (whole : List Char) : Option Json :=
  let n := Decimal.digitsValue whole
  if negative then
    if 0 < n ∧ n ≤ Nat.pow 2 63 then some (.whole (-(n : Int)))
    else .double <$> numeralDouble? true whole [] 0
  else if n < wordLimit then some (.whole n)
  else .double <$> numeralDouble? false whole [] 0

structure Numeral where
  /-- Its value, or none when it is beyond the doubles. -/
  value : Option Json
  /-- How many characters it takes. -/
  size : Nat

/-- The digits of a whole part: a zero alone, or digits that do not start with
one. -/
def takeWhole? : List Char → Option (List Char)
  | [] => none
  | c :: rest =>
    if c = '0' then some ['0']
    else if c.isDigit then some (c :: rest.takeWhile Char.isDigit)
    else none

def takeFraction? : List Char → Option (Option (List Char))
  | '.' :: rest =>
    let digits := rest.takeWhile Char.isDigit
    if digits.isEmpty then none else some (some digits)
  | _ => some none

/-- An exponent and how many characters it takes, if there is a mark; a mark
needs digits. -/
def takeExponent? : List Char → Option (Option (Int × Nat))
  | mark :: rest =>
    if mark = 'e' ∨ mark = 'E' then
      let (negative, unsigned) := Decimal.splitSign rest
      let digits := unsigned.takeWhile Char.isDigit
      let value : Int := Decimal.digitsValue digits
      if digits.isEmpty then none
      else some (some (if negative then -value else value,
        1 + (rest.length - unsigned.length) + digits.length))
    else some none
  | [] => some none

def Numeral.take? (cs : List Char) : Option Numeral := do
  let negative := cs.head? = some '-'
  let unsigned := if negative then cs.tail else cs
  let sign := if negative then 1 else 0
  let whole ← takeWhole? unsigned
  let afterWhole := unsigned.drop whole.length
  let fraction ← takeFraction? afterWhole
  let fractionSize := fraction.elim 0 (fun digits => digits.length + 1)
  let exponent ← takeExponent? (afterWhole.drop fractionSize)
  let exponentSize := exponent.elim 0 Prod.snd
  let value := match fraction, exponent with
    | none, none => ofWholeDigits? negative whole
    | _, _ => .double <$>
      numeralDouble? negative whole (fraction.getD []) (exponent.elim 0 Prod.fst)
  return { value, size := sign + whole.length + fractionSize + exponentSize }

end BlockLang.Json
