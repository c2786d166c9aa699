import BlockLang.Decimal.Numeral

/-! # The fewest digits that read back

A double stands for the interval of reals that round to it. Among the decimals in that interval
those with the fewest digits are wanted, and among them the one nearest to the double; a rule
settles an exact tie.
-/

namespace BlockLang.Decimal

/-- Which of two equally near decimals is written. -/
inductive Tie where
  | toEven
  | up
  deriving DecidableEq, Repr

/-- A positive decimal: `digits · 10 ^ exponent`. -/
structure Digits where
  digits : Nat
  exponent : Int
  deriving DecidableEq, Repr

def Digits.strip (d : Digits) : Digits :=
  if h : d.digits ≠ 0 ∧ d.digits % 10 = 0 then Digits.strip ⟨d.digits / 10, d.exponent + 1⟩ else d
termination_by d.digits
decreasing_by omega

def leadingExponent (steps : Nat) : Int :=
  if Double.one ≤ steps then (digitCount (steps / Double.one) : Int) - 1
  else -(digitCount ((Double.one + steps - 1) / steps - 1) : Int)

/-- A positive number of steps seen on the grid of the multiples of `10 ^
exponent`: it is `num / den` of them, and `scale / den` of them make one
step. -/
structure Grid where
  exponent : Int
  num : Nat
  den : Nat
  scale : Nat

def Grid.of (steps : Nat) (exponent : Int) : Grid :=
  if 0 ≤ exponent then ⟨exponent, steps, Double.one * Nat.pow 10 exponent.toNat, 1⟩
  else
    let scale := Nat.pow 10 (-exponent).toNat
    ⟨exponent, steps * scale, Double.one, scale⟩

def gapBelow (steps : Nat) : Nat :=
  let gap := Nat.pow 2 (Double.gapExponent steps)
  if 1 < gap ∧ steps = Nat.pow 2 steps.log2 then gap / 2 else gap

/-- Whether twice a distance stays within a gap; the midpoint counts for an even
significand. -/
def within (steps twice gap : Nat) : Bool :=
  if steps / Nat.pow 2 (Double.gapExponent steps) % 2 = 0 then twice ≤ gap else twice < gap

/-- The point of the grid that is written for `steps`, if a neighbour of it on
the grid reads back. Of two that do, the nearer one is written. -/
def Grid.pick? (tie : Tie) (steps : Nat) (grid : Grid) : Option Nat :=
  let low := grid.num / grid.den
  let below := grid.num - low * grid.den
  let above := (low + 1) * grid.den - grid.num
  let lowHits := within steps (2 * below) (gapBelow steps * grid.scale)
  let highHits := within steps (2 * above) (Nat.pow 2 (Double.gapExponent steps) * grid.scale)
  match lowHits, highHits with
  | false, false => none
  | true, false => some low
  | false, true => some (low + 1)
  | true, true =>
    if below < above then some low
    else if above < below then some (low + 1)
    else match tie with
      | .up => some (low + 1)
      | .toEven => some (if low % 2 = 0 then low else low + 1)

/-- The first hit on grids that grow finer by a power of ten, `more` of them
after the first. -/
def search (tie : Tie) (steps : Nat) (exponent : Int) : Nat → Digits
  | 0 =>
    let grid := Grid.of steps exponent
    ⟨(grid.pick? tie steps).getD (grid.num / grid.den), exponent⟩
  | more + 1 =>
    match (Grid.of steps exponent).pick? tie steps with
    | some digits => ⟨digits, exponent⟩
    | none => search tie steps (exponent - 1) more

/-- The digits written for a positive number of steps. Seventeen always
suffice. -/
def shortest (tie : Tie) (steps : Nat) : Digits :=
  (search tie steps (leadingExponent steps) 16).strip

end BlockLang.Decimal
