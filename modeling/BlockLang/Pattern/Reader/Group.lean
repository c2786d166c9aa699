import BlockLang.Pattern.Reader.Escape
import BlockLang.Text.Word

/-! # Reading counts and the openings of groups -/

namespace BlockLang.Pattern.Reader

def countLimit : Nat := Nat.pow 2 32

def countDigits (verbose : Bool) : Nat → List Char → List Char × List Char
  | 0, cs => ([], cs)
  | _ + 1, [] => ([], [])
  | limit + 1, c :: rest =>
    if c.isDigit then
      let (digits, later) := countDigits verbose limit (skip verbose rest)
      (c :: digits, later)
    else ([], c :: rest)

/-- Characters without the blanks in front. -/
def skipBlanks (verbose : Bool) (cs : List Char) : List Char :=
  match cs with
  | [] => []
  | c :: _ => if Text.isBlank c then skip verbose (cs.dropWhile Text.isBlank) else cs

def count (verbose : Bool) (cs : List Char) : Option Nat × List Char :=
  let cs := cs.dropWhile Text.isBlank
  let (digits, rest) := countDigits verbose cs.length cs
  let value := Decimal.digitsValue digits
  (if digits.isEmpty ∨ countLimit ≤ value then none else some value, skipBlanks verbose rest)

/-- A question mark behind a repetition changes which match is preferred and
nothing else. -/
def dropQuestion (cs : List Char) : List Char :=
  match cs with
  | '?' :: rest => rest
  | _ => cs

def bounds (verbose : Bool) (cs : List Char) : Option ((Nat × Option Nat) × List Char) :=
  match count verbose (skip verbose cs) with
  | (some low, '}' :: rest) => some ((low, some low), dropQuestion (skip verbose rest))
  | (some low, ',' :: rest) =>
    match skip verbose rest with
    | '}' :: later => some ((low, none), dropQuestion (skip verbose later))
    | later =>
      match count verbose later with
      | (some high, '}' :: last) =>
        if low ≤ high then some ((low, some high), dropQuestion (skip verbose last)) else none
      | _ => none
  | _ => none

def isNameStart (c : Char) : Bool := c == '_' || Text.alphabetic.contains c

def isNameChar (c : Char) : Bool :=
  c == '_' || c == '.' || c == '[' || c == ']' || Text.alphanumeric.contains c

/-- Read the name of a group up to its closing angle bracket. -/
def groupName (cs : List Char) : Option (String × List Char) :=
  match cs.span (· != '>') with
  | (first :: more, _ :: rest) =>
    if isNameStart first && more.all isNameChar then some (String.ofList (first :: more), rest)
    else none
  | _ => none

/-- Read flags up to the colon or parenthesis that ends them. -/
def flagList (on : Bool) (flags : Flags) : List Char → Option (Flags × List Char)
  | [] => none
  | c :: rest =>
    if c = ':' ∨ c = ')' then some (flags, c :: rest)
    else if c = '-' then
      match rest with
      | [] => none
      | next :: _ => if on && next != ':' && next != ')' then flagList false flags rest else none
    else
      match Flag.ofLetter? c with
      | some flag =>
        if flags.any (·.1 = flag) then none else flagList on (flags ++ [(flag, on)]) rest
      | none => none

inductive Opening where
  | group (kind : Group)
  | flags (flags : Flags)

/-- Read the flags of a group, or flags that stand alone. -/
def flagOpening (cs : List Char) : Option (Opening × List Char) :=
  match flagList true [] cs with
  | some (flags, ':' :: rest) => some (.group (.flagged flags), rest)
  | some (flags, ')' :: rest) => if flags.isEmpty then none else some (.flags flags, rest)
  | _ => none

/-- Read what follows an opening parenthesis. -/
def groupOpening (verbose : Bool) (cs : List Char) : Option (Opening × List Char) :=
  match skip verbose cs with
  | '?' :: '=' :: _ | '?' :: '!' :: _ | '?' :: '<' :: '=' :: _ | '?' :: '<' :: '!' :: _ => none
  | '?' :: 'P' :: '<' :: rest =>
    (groupName rest).map fun (name, later) => (.group (.namedWithLetter name), later)
  | '?' :: '<' :: rest => (groupName rest).map fun (name, later) => (.group (.named name), later)
  | '?' :: rest => flagOpening rest
  | rest => some (.group .captured, rest)

end BlockLang.Pattern.Reader
