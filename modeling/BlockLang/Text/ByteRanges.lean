/-! # Ranges of characters as ranges of bytes

The UTF-8 forms of a range of characters are the byte sequences that some sequences of byte ranges
allow. A range is cut where the number of bytes changes and where a continuation byte would
otherwise not run through a full range.
-/

namespace BlockLang.Text

/-- A sequence of ranges of bytes, both ends of a range included. -/
abbrev ByteRanges := List (Nat × Nat)

def utf8Size (n : Nat) : Nat :=
  if n < 0x80 then 1 else if n < 0x800 then 2 else if n < 0x10000 then 3 else 4

/-- The continuation bytes of a code point, `count` of them. -/
def continuations : Nat → Nat → List Nat
  | 0, _ => []
  | count + 1, n => continuations count (n / 64) ++ [0x80 + n % 64]

def encode (n : Nat) : List Nat :=
  match utf8Size n with
  | 1 => [n]
  | 2 => (0xC0 + n / 64) :: continuations 1 n
  | 3 => (0xE0 + n / 4096) :: continuations 2 n
  | _ => (0xF0 + n / 262144) :: continuations 3 n

/-- The code point before which a range must be cut, for it to be one sequence
of byte ranges. -/
def cut? (first last : Nat) : Option Nat :=
  let sizes := [0x80, 0x800, 0x10000].find? fun n => first < n ∧ n ≤ last
  let blocks := [64, 4096, 262144].findSome? fun size =>
    if first / size = last / size then none
    else if first % size ≠ 0 then some ((first / size + 1) * size)
    else if last % size ≠ size - 1 then some (last / size * size)
    else none
  sizes <|> if last < 0x80 then none else blocks

/-- The sequences of byte ranges of a range of characters, in order. -/
def byteRanges : Nat → Nat → Nat → List ByteRanges
  | 0, _, _ => []
  | limit + 1, first, last =>
    if last < first then []
    else if first < 0xE000 ∧ 0xD7FF < last then
      byteRanges limit first 0xD7FF ++ byteRanges limit 0xE000 last
    else if 0xD800 ≤ first ∧ last < 0xE000 then []
    else
      match cut? first last with
      | some n => byteRanges limit first (n - 1) ++ byteRanges limit n last
      | none => [(encode first).zip (encode last)]

end BlockLang.Text
