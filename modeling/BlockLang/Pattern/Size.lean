import BlockLang.Pattern.Expr
import BlockLang.Text.ByteRanges

/-! # The size of patterns

An engine runs an expression as an automaton over bytes, forwards to find the end of a match and
backwards to find its start. Repetitions are written out in it, so a short pattern can have a
large automaton, and a pattern whose automaton would be too large is refused. Only the size is
computed here.
-/

namespace BlockLang.Pattern

/-- The bytes that an automaton takes in the two directions. They differ for
sets of longer characters and for groups. -/
structure Size where
  forward : Nat
  backward : Nat
  deriving DecidableEq, Repr

namespace Size

def both (bytes : Nat) : Size := ⟨bytes, bytes⟩

def add (s t : Size) : Size := ⟨s.forward + t.forward, s.backward + t.backward⟩

instance : Add Size := ⟨add⟩

def times (count : Nat) (s : Size) : Size := ⟨count * s.forward, count * s.backward⟩

end Size

/-- The bytes of a state. With the sizes below it decides which patterns are
refused as too large. -/
def stateSize : Nat := 32

def transitionSize : Nat := 8

def choiceSize : Nat := 4

def forkSize : Nat := stateSize + 2 * choiceSize

/-- A state of an automaton for sequences of byte ranges: its transitions, each
with the number of the state that it leads to. -/
abbrev Node := List ((Nat × Nat) × Nat)

/-- The states of an automaton that reads sequences of at most `depth` byte
ranges, and the number of its first state. Equal states are shared. -/
def nodes : Nat → List Node → List Text.ByteRanges → List Node × Nat
  | 0, known, _ => (known, 0)
  | depth + 1, known, sequences =>
    let branches := sequences.splitBy fun a b => a.head? == b.head?
    let (known, node) := branches.foldl (fun (known, node) branch =>
      match branch with
      | (range :: next) :: _ =>
        if next.isEmpty then (known, node ++ [(range, 0)])
        else
          let (known, target) := nodes depth known (branch.map List.tail)
          (known, node ++ [(range, target)])
      | _ => (known, node)) (known, ([] : Node))
    match known.findIdx? (· == node) with
    | some i => (known, i + 1)
    | none => (known ++ [node], known.length + 1)

def beginnings : Nat → List Text.ByteRanges → Nat
  | 0, _ => 0
  | depth + 1, sequences =>
    let branches := (sequences.filter (· ≠ [])).splitBy fun a b => a.head? == b.head?
    branches.foldl (fun n branch => n + 1 + beginnings depth (branch.map List.tail)) 0

def sequencesOf (chars : CharSet) : List Text.ByteRanges :=
  chars.ranges.flatMap fun (first, last) => Text.byteRanges 32 first last

/-- The size of the automaton of a set. Forwards the ends of byte sequences are
shared, backwards their beginnings are. -/
def setSize (chars : CharSet) : Size :=
  match chars.ranges with
  | [] => .both stateSize
  | [(first, last)] =>
    if first = last then .both (stateSize * Text.utf8Size first) else large
  | _ => large
where
  large : Size :=
    if chars.ranges.all (·.2 < 0x80) then
      .both (2 * stateSize + transitionSize * chars.ranges.length)
    else
      let sequences := sequencesOf chars
      let states := (nodes 4 [] sequences).1
      ⟨states.foldl (fun n node => n + stateSize + transitionSize * node.length) stateSize,
        (2 + beginnings 4 sequences) * stateSize + choiceSize * sequences.length⟩

namespace Expr

def isFlat : Expr → Bool
  | .empty | .look _ => true
  | .set _ => false
  | .group body => body.isFlat
  | .seq first second => first.isFlat && second.isFlat
  | .alt left right => left.isFlat && right.isFlat
  | .repeated _ atMost body => atMost == some 0 || body.isFlat

/-- Whether an expression can match the empty text, conditions being taken to
hold. -/
def canBeEmpty : Expr → Bool
  | .empty | .look _ => true
  | .set _ => false
  | .group body => body.canBeEmpty
  | .seq first second => first.canBeEmpty && second.canBeEmpty
  | .alt left right => left.canBeEmpty || right.canBeEmpty
  | .repeated atLeast _ body => atLeast == 0 || body.canBeEmpty

/-- The size of a repetition of a body, given the size of the body and whether
that can match the empty text. -/
def repeatedSize (body : Size) (bodyCanBeEmpty : Bool) (atLeast : Nat) : Option Nat → Size
  | none =>
    if atLeast = 0 ∧ bodyCanBeEmpty then body + .both (2 * forkSize + stateSize)
    else body.times (max atLeast 1) + .both forkSize
  | some atMost =>
    if atMost = 0 then .both 0
    else if atLeast = atMost then body.times atMost
    else body.times atMost + .both ((atMost - atLeast) * forkSize + stateSize)

/-- The set that alternatives make together when all of them are sets. -/
def alternativeSet? : Expr → Option CharSet
  | .set chars => some chars
  | .alt left right => do return (← left.alternativeSet?).union (← right.alternativeSet?)
  | _ => none

/-- The size of the automaton of an expression. A body that only matches the
empty text is written out at most once. -/
def size : Expr → Size
  | .empty => .both 0
  | .look _ => .both stateSize
  | .set chars => setSize chars
  | .group body => body.size + ⟨2 * stateSize, 0⟩
  | .seq first second => first.size + second.size
  | .alt left right =>
    match alternativeSet? (.alt left right) with
    | some chars => setSize chars
    | none => left.size + right.size + .both (choiceSize +
        match right with
        | .alt _ _ => 0
        | _ => 2 * stateSize + choiceSize)
  | .repeated atLeast atMost body =>
    if body.isFlat then body.size
    else repeatedSize body.size body.canBeEmpty atLeast atMost

def sizeLimit : Nat := 10485760

/-- Whether the automaton of an expression is small enough. -/
def fits (e : Expr) : Bool :=
  let frame := 2 * stateSize + transitionSize + forkSize + stateSize
  e.size.forward + frame + 2 * stateSize ≤ sizeLimit && e.size.backward + frame ≤ sizeLimit

end Expr

end BlockLang.Pattern
