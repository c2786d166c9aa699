import BlockLang.Decimal.Numeral
import BlockLang.Pattern.Syntax
import BlockLang.Text.Blank

/-! # Reading escapes

A backslash with what follows it stands for a character, a class or an assertion. In a verbose
pattern blanks and comments may stand between the parts of a construct.
-/

namespace BlockLang.Pattern.Reader

/-- Characters of a verbose pattern without the blanks and comments in front. -/
def skipVerbose (inComment : Bool) : List Char → List Char
  | [] => []
  | c :: rest =>
    if inComment then skipVerbose (c != '\n') rest
    else if Text.isBlank c then skipVerbose false rest
    else if c = '#' then skipVerbose true rest
    else c :: rest

def skip (verbose : Bool) (cs : List Char) : List Char :=
  if verbose then skipVerbose false cs else cs

def hexValue? (c : Char) : Option Nat :=
  if c.isDigit then some (c.toNat - '0'.toNat)
  else if 'a' ≤ c ∧ c ≤ 'f' then some (c.toNat - 'a'.toNat + 10)
  else if 'A' ≤ c ∧ c ≤ 'F' then some (c.toNat - 'A'.toNat + 10)
  else none

def charOf? (n : Nat) : Option Char := if n.isValidChar then some (Char.ofNat n) else none

def hexFixed (verbose : Bool) (value : Nat) : Nat → List Char → Option (Char × List Char)
  | 0, cs => (charOf? value).map (·, cs)
  | _ + 1, [] => none
  | count + 1, c :: rest => do
    let digit ← hexValue? c
    hexFixed verbose (16 * value + digit) count (skip verbose rest)

def hexBraced (verbose : Bool) (value : Option Nat) : Nat → List Char → Option (Char × List Char)
  | 0, _ => none
  | limit + 1, cs =>
    match skip verbose cs with
    | [] => none
    | c :: rest =>
      if c = '}' then do
        let code ← value
        let c ← charOf? code
        return (c, skip verbose rest)
      else do
        let digit ← hexValue? c
        hexBraced verbose (some (16 * value.getD 0 + digit)) limit rest

inductive Escaped where
  | char (c : Char)
  | byte (c : Char)
  | shorthand (kind : Shorthand) (negated : Bool)
  | assertion (kind : Assertion)

def hex (verbose : Bool) (count : Nat) (cs : List Char) : Option (Escaped × List Char) :=
  match skip verbose cs with
  | [] => none
  | '{' :: rest =>
    (hexBraced verbose none (rest.length + 1) rest).map fun (c, later) => (.char c, later)
  | cs => (hexFixed verbose 0 count cs).map fun (c, later) =>
      (if count = 2 then .byte c else .char c, later)

def isMeta (c : Char) : Bool := "\\.+*?()|[]{}^$#&-~".toList.contains c

/-- Whether a backslash before a character leaves the character itself. -/
def isPlainEscape (c : Char) : Bool :=
  isMeta c || (c.toNat < 0x80 && !c.isAlphanum && c != '<' && c != '>')

def namedBoundary? (name : List Char) : Option Assertion :=
  if name = "start".toList then some .wordStart
  else if name = "end".toList then some .wordEnd
  else if name = "start-half".toList then some .wordStartHalf
  else if name = "end-half".toList then some .wordEndHalf
  else none

def boundaryName (verbose : Bool) : Nat → List Char → List Char × List Char
  | 0, cs => ([], cs)
  | _ + 1, [] => ([], [])
  | limit + 1, c :: rest =>
    if c.isAlpha || c == '-' then
      let (name, later) := boundaryName verbose limit (skip verbose rest)
      (c :: name, later)
    else ([], c :: rest)

/-- The boundary behind a backslash and the letter b, which a name in braces may
select. -/
def boundary (verbose : Bool) (cs : List Char) : Option (Assertion × List Char) :=
  match cs with
  | '{' :: rest =>
    match skip verbose rest with
    | [] => none
    | c :: later =>
      if c.isAlpha || c == '-' then
        match boundaryName verbose (later.length + 1) (c :: later) with
        | (name, '}' :: last) => (namedBoundary? name).map (·, last)
        | _ => none
      else some (.wordBoundary, cs)
  | _ => some (.wordBoundary, cs)

def control? (c : Char) : Option Char :=
  [('a', '\x07'), ('f', '\x0c'), ('t', '\t'), ('n', '\n'), ('r', '\r'), ('v', '\x0b')].lookup c

def shorthand? (c : Char) : Option (Shorthand × Bool) :=
  [('d', .digit, false), ('s', .space, false), ('w', .word, false), ('D', .digit, true),
   ('S', .space, true), ('W', .word, true)].lookup c

def assertion? (c : Char) : Option Assertion :=
  [('A', .textStart), ('z', .textEnd), ('B', .notWordBoundary), ('<', .wordStart),
   ('>', .wordEnd)].lookup c

def escape (verbose : Bool) (cs : List Char) : Option (Escaped × List Char) :=
  match cs with
  | [] => none
  | c :: rest =>
    if c = 'x' then hex verbose 2 rest
    else if c = 'u' then hex verbose 4 rest
    else if c = 'U' then hex verbose 8 rest
    else if c = 'b' then (boundary verbose rest).map fun (kind, later) => (.assertion kind, later)
    else if isPlainEscape c then some (.char c, rest)
    else
      match shorthand? c, control? c, assertion? c with
      | some (kind, negated), _, _ => some (.shorthand kind negated, rest)
      | none, some control, _ => some (.char control, rest)
      | none, none, some kind => some (.assertion kind, rest)
      | none, none, none => none

end BlockLang.Pattern.Reader
