import BlockLang.Pattern.Reader.Escape

/-! # Reading bracketed classes

A closing bracket right behind the opening one, or behind its `^`, is a member. Classes may be
nested and joined by set operations, which associate to the left.
-/

namespace BlockLang.Pattern.Reader

/-- The next significant character behind the current one, for telling a range
from a hyphen. -/
def peek (verbose : Bool) (cs : List Char) : Option Char :=
  if verbose then
    match cs.dropWhile Text.isBlank with
    | '#' :: rest => (rest.dropWhile Text.isBlank).head?
    | later => later.head?
  else cs.head?

/-- Read one end of a range, or a member that can be none. -/
def member (verbose : Bool) (cs : List Char) : Option (Escaped × List Char) :=
  match cs with
  | [] => none
  | '\\' :: rest => escape verbose rest
  | c :: rest => some (.char c, rest)

def Escaped.char? : Escaped → Option Char
  | .char c | .byte c => some c
  | .shorthand _ _ | .assertion _ => none

def Escaped.item? : Escaped → Option ClassItem
  | .char c | .byte c => some (.char c)
  | .shorthand kind negated => some (.shorthand kind negated)
  | .assertion _ => none

def range (verbose : Bool) (cs : List Char) : Option (ClassItem × List Char) := do
  let (first, rest) ← member verbose cs
  match skip verbose rest with
  | [] => none
  | '-' :: later =>
    if peek verbose later = some ']' ∨ peek verbose later = some '-' then
      return (← first.item?, '-' :: later)
    else
      let (last, rest) ← member verbose (skip verbose later)
      let low ← first.char?
      let high ← last.char?
      if low ≤ high then return (.range low high, rest) else none
  | later => return (← first.item?, later)

/-- Read the named class that may stand behind an opening bracket inside a
class. If it is none, the bracket opens a class. -/
def named? (cs : List Char) : Option (ClassItem × List Char) :=
  match cs with
  | ':' :: rest =>
    let (negated, rest) := match rest with
      | '^' :: later => (true, later)
      | later => (false, later)
    match rest.span (· != ':') with
    | (name, ':' :: ']' :: later) =>
      (Named.ofSpelling? (String.ofList name)).map fun kind => (.named kind negated, later)
    | _ => none
  | _ => none

def close (left : Option (SetOperation × ClassSet)) (items : List ClassItem) : ClassSet :=
  match left with
  | none => .union items
  | some (kind, set) => .operation kind set (.union items)

/-- Read the members that only the start of a class can have: hyphens, or a
closing bracket. -/
def leading (verbose : Bool) : Nat → List ClassItem → List Char → List ClassItem × List Char
  | 0, items, cs => (items, cs)
  | limit + 1, items, cs =>
    match cs with
    | '-' :: rest => leading verbose limit (items ++ [.char '-']) (skip verbose rest)
    | ']' :: rest => if items.isEmpty then ([.char ']'], skip verbose rest) else (items, cs)
    | _ => (items, cs)

def opening (verbose : Bool) (cs : List Char) : Bool × List ClassItem × List Char :=
  match skip verbose cs with
  | '^' :: rest => (true, leading verbose (rest.length + 1) [] (skip verbose rest))
  | rest => (false, leading verbose (rest.length + 1) [] rest)

/-- Read a class behind its opening members, up to its closing bracket. At most
`limit` members are read. -/
def classRest (verbose : Bool) : Nat → Option (SetOperation × ClassSet) → List ClassItem →
    List Char → Option (ClassSet × List Char)
  | 0, _, _, _ => none
  | limit + 1, left, items, cs =>
    match skip verbose cs with
    | [] => none
    | ']' :: rest => some (close left items, rest)
    | '[' :: rest =>
      match named? rest with
      | some (item, later) => classRest verbose limit left (items ++ [item]) later
      | none =>
        let (negated, first, later) := opening verbose rest
        match classRest verbose limit none first later with
        | some (set, last) => classRest verbose limit left (items ++ [.nested negated set]) last
        | none => none
    | '&' :: '&' :: rest =>
      classRest verbose limit (some (.intersection, close left items)) [] rest
    | '-' :: '-' :: rest =>
      classRest verbose limit (some (.difference, close left items)) [] rest
    | '~' :: '~' :: rest =>
      classRest verbose limit (some (.symmetricDifference, close left items)) [] rest
    | later =>
      match range verbose later with
      | some (item, last) => classRest verbose limit left (items ++ [item]) last
      | none => none

def bracketed (verbose : Bool) (cs : List Char) : Option (Syntax × List Char) :=
  let (negated, first, rest) := opening verbose cs
  (classRest verbose (rest.length + 1) none first rest).map fun (set, later) =>
    (.bracketed negated set, later)

end BlockLang.Pattern.Reader
