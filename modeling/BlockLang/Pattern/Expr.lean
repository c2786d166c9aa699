import BlockLang.Text.CharSet

/-! # Regular expressions

The meaning of a pattern: an expression built from sets of characters and conditions on places.
It matches a text if it matches some stretch of it.

Where an expression can end is computed for all the places where it may begin at once. A set of
places is a number with one bit for each place, so a step over one character is a shift.
-/

namespace BlockLang.Pattern

/-- A condition on the characters on the two sides of a place. It needs no more
than these, so it can be tested at all places at once. -/
inductive Look where
  | textStart
  | textEnd
  | lineStart
  | lineEnd
  /-- Lines end in a carriage return, a newline or both. -/
  | anyLineStart
  | anyLineEnd
  | wordBoundary (word : CharSet)
  | notWordBoundary (word : CharSet)
  | wordStart (word : CharSet)
  | wordEnd (word : CharSet)
  | wordStartHalf (word : CharSet)
  | wordEndHalf (word : CharSet)
  deriving DecidableEq, Repr

inductive Expr where
  | empty
  | set (chars : CharSet)
  | look (condition : Look)
  /-- A captured part, which matches what its body matches. -/
  | group (body : Expr)
  | seq (first second : Expr)
  | alt (left right : Expr)
  | repeated (atLeast : Nat) (atMost : Option Nat) (body : Expr)
  deriving DecidableEq, Repr, Inhabited

def isIn (s : CharSet) (c : Option Char) : Bool := c.any s.contains

def Look.holds (before after : Option Char) : Look → Bool
  | .textStart => before.isNone
  | .textEnd => after.isNone
  | .lineStart => before.isNone || before == some '\n'
  | .lineEnd => after.isNone || after == some '\n'
  | .anyLineStart =>
    before.isNone || before == some '\n' || (before == some '\r' && after != some '\n')
  | .anyLineEnd =>
    after.isNone || after == some '\r' || (after == some '\n' && before != some '\r')
  | .wordBoundary word => isIn word before != isIn word after
  | .notWordBoundary word => isIn word before == isIn word after
  | .wordStart word => !isIn word before && isIn word after
  | .wordEnd word => isIn word before && !isIn word after
  | .wordStartHalf word => !isIn word before
  | .wordEndHalf word => !isIn word after

/-- A set of places of a text, place `i` being before the character `i`. -/
abbrev Places := Nat

def placesWhere (test : Option Char → Option Char → Bool) (before : Option Char) :
    List Char → Places
  | [] => (test before none).toNat
  | c :: rest => (test before (some c)).toNat + 2 * placesWhere test (some c) rest

def allPlaces (text : List Char) : Places := Nat.pow 2 (text.length + 1) - 1

/-- An expression with its tests evaluated at every place of one text. Running
it is then arithmetic on sets of places. -/
inductive Moves where
  | stay
  /-- Step over one character from one of these places. -/
  | step (places : Places)
  /-- Stay at one of these places. -/
  | check (places : Places)
  | seq (first second : Moves)
  | alt (left right : Moves)
  | repeated (atLeast : Nat) (atMost : Option Nat) (body : Moves)

def Expr.moves (text : List Char) : Expr → Moves
  | .empty => .stay
  | .set chars => .step (placesWhere (fun _ after => isIn chars after) none text)
  | .look condition => .check (placesWhere condition.holds none text)
  | .group body => body.moves text
  | .seq first second => .seq (first.moves text) (second.moves text)
  | .alt left right => .alt (left.moves text) (right.moves text)
  | .repeated atLeast atMost body => .repeated atLeast atMost (body.moves text)

/-- The places after a number of rounds, or as soon as a round changes
nothing. -/
def rounds (round : Places → Places) : Nat → Places → Places
  | 0, places => places
  | count + 1, places =>
    let next := round places
    if next = places then places else rounds round count next

/-- The places `seen` and those that rounds from the places `fresh` among them
lead to, after at most `count` rounds. -/
def spread (round : Places → Places) : Nat → Places → Places → Places
  | 0, seen, _ => seen
  | count + 1, seen, fresh =>
    let new := (seen ||| round fresh) ^^^ seen
    if new = 0 then seen else spread round count (seen ||| new) new

/-- The places where a match that begins at one of the given places can end. -/
def Moves.run (length : Nat) : Moves → Places → Places
  | .stay, places => places
  | .step from_, places => (places &&& from_) <<< 1
  | .check at_, places => places &&& at_
  | .seq first second, places => second.run length (first.run length places)
  | .alt left right, places => left.run length places ||| right.run length places
  | .repeated atLeast atMost body, places =>
    let least := rounds (fun p => body.run length p) atLeast places
    let more := match atMost with
      | some most => min (most - atLeast) (length + 1)
      | none => length + 1
    spread (fun p => body.run length p) more least least

def Expr.matchesIn (e : Expr) (text : String) : Bool :=
  let chars := text.toList
  (e.moves chars).run chars.length (allPlaces chars) != 0

end BlockLang.Pattern
