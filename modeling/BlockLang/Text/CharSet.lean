/-! # Sets of characters

A set of characters is a list of ranges of code points. The operations keep the ranges in order
and apart, so that equal sets made by them have equal ranges.
-/

namespace BlockLang

/-- A set of characters: ranges of code points, both ends of a range
included. -/
structure CharSet where
  ranges : List (Nat × Nat)
  deriving DecidableEq, Repr, Inhabited

namespace CharSet

def containsCode (s : CharSet) (n : Nat) : Bool := s.ranges.any fun r => r.1 ≤ n && n ≤ r.2

def contains (s : CharSet) (c : Char) : Bool := s.containsCode c.toNat

def empty : CharSet := ⟨[]⟩

def singleton (n : Nat) : CharSet := ⟨[(n, n)]⟩

def lastCode : Nat := 0x10FFFF

def all : CharSet := ⟨[(0, lastCode)]⟩

/-- A range and the ranges behind it, in order of their first code points,
joined where they touch or overlap. -/
def joinTouching (range : Nat × Nat) : List (Nat × Nat) → List (Nat × Nat)
  | [] => [range]
  | next :: rest =>
    if next.1 ≤ range.2 + 1 then joinTouching (range.1, max range.2 next.2) rest
    else range :: joinTouching next rest

/-- The set of the code points of some ranges, which may come in any order and
overlap. -/
def ofRanges (ranges : List (Nat × Nat)) : CharSet :=
  match ranges.mergeSort fun r s => r.1 ≤ s.1 with
  | [] => empty
  | range :: rest => ⟨joinTouching range rest⟩

def union (s t : CharSet) : CharSet := ofRanges (s.ranges ++ t.ranges)

/-- The gaps between ordered ranges, from a code point on. -/
def gapsFrom (start : Nat) : List (Nat × Nat) → List (Nat × Nat)
  | [] => if start ≤ lastCode then [(start, lastCode)] else []
  | r :: rest =>
    if start < r.1 then (start, r.1 - 1) :: gapsFrom (r.2 + 1) rest
    else gapsFrom (max start (r.2 + 1)) rest

def complement (s : CharSet) : CharSet := ⟨gapsFrom 0 (ofRanges s.ranges).ranges⟩

def inter (s t : CharSet) : CharSet := (s.complement.union t.complement).complement

def diff (s t : CharSet) : CharSet := s.inter t.complement

def symmDiff (s t : CharSet) : CharSet := (s.diff t).union (t.diff s)

end CharSet

end BlockLang
