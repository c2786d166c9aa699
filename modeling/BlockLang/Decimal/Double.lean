/-! # Finite doubles

A finite double is a sign and a whole number of steps, a step being 2⁻¹⁰⁷⁴, the least positive
double. Comparing, testing for whole numbers and rounding are then exact arithmetic on natural
numbers, and the two zeros stay apart.
-/

namespace BlockLang

/-- A finite double: a sign and a whole number of steps of 2⁻¹⁰⁷⁴. Not every
such number is a double, and rounding gives only those that are. -/
structure Double where
  negative : Bool
  steps : Nat
  deriving DecidableEq, Repr, Inhabited

namespace Double

def one : Nat := Nat.pow 2 1074

/-- The first number of steps beyond the finite doubles, that of 2¹⁰²⁴. -/
def overflow : Nat := Nat.pow 2 2098

/-- The distance, as a power of two, between neighbouring doubles of about
`steps` steps. -/
def gapExponent (steps : Nat) : Nat := steps.log2 - 52

/-- A quotient rounded to the nearest whole number, a half going to the even
neighbour. -/
def roundDiv (num den : Nat) : Nat :=
  let low := num / den
  let twice := 2 * (num % den)
  if twice < den then low
  else if den < twice then low + 1
  else if low % 2 = 0 then low else low + 1

/-- The double nearest to `num / den` steps, or none when that is not finite. Of
two that are equally near, it is the one with an even significand. -/
def round? (negative : Bool) (num den : Nat) : Option Double :=
  let gap := Nat.pow 2 (gapExponent (num / den))
  let steps := roundDiv num (den * gap) * gap
  if steps < overflow then some ⟨negative, steps⟩ else none

def ofInt? (i : Int) : Option Double := round? (i < 0) (i.natAbs * one) 1

def ofNat (n : Nat) : Double := ⟨false, n * one⟩

/-- The number of steps with its sign, which orders the doubles and joins the
two zeros. -/
def signedSteps (x : Double) : Int := if x.negative then -(x.steps : Int) else x.steps

instance : LT Double := ⟨fun x y => x.signedSteps < y.signedSteps⟩

instance (x y : Double) : Decidable (x < y) :=
  inferInstanceAs (Decidable (x.signedSteps < y.signedSteps))

def isWhole (x : Double) : Bool := x.steps % one == 0

def toInt (x : Double) : Int :=
  let whole := x.steps / one
  if x.negative then -(whole : Int) else whole

def isZero (x : Double) : Bool := x.steps == 0

def mul? (x y : Double) : Option Double :=
  round? (x.negative != y.negative) (x.steps * y.steps) one

def div? (x y : Double) : Option Double :=
  round? (x.negative != y.negative) (x.steps * one) y.steps

end Double

end BlockLang
