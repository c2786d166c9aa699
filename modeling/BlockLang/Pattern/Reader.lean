import BlockLang.Pattern.Reader.Class
import BlockLang.Pattern.Reader.Group

/-! # Reading patterns

A pattern is a list of alternatives, each a sequence of characters, classes, assertions, groups
and repetitions of these.
-/

namespace BlockLang.Pattern

namespace Reader

/-- The items of a sequence, given in reverse. -/
def sequenceOf (items : List Syntax) : Syntax :=
  match items with
  | [] => .empty
  | [item] => item
  | items => .sequence items.reverse

def alternativesOf (branches : List Syntax) : Syntax :=
  match branches with
  | [] => .empty
  | [branch] => branch
  | branches => .alternatives branches.reverse

/-- Repeat the last item of a sequence that is given in reverse. -/
def repeatLast (atLeast : Nat) (atMost : Option Nat) (items : List Syntax) :
    Option (List Syntax) :=
  match items with
  | [] => none
  | .flags _ :: _ => none
  | item :: before => some (.repeated atLeast atMost item :: before)

def Escaped.toSyntax : Escaped → Syntax
  | .char c => .char c
  | .byte c => .byte c
  | .shorthand kind negated => .shorthand kind negated
  | .assertion kind => .assertion kind

def addName? (names : List String) : Group → Option (List String)
  | .named name | .namedWithLetter name => if name ∈ names then none else some (name :: names)
  | .captured | .flagged _ => some names

def verboseAfter (verbose : Bool) (flags : Flags) : Bool := (flags.lookup .verbose).getD verbose

/-- What has been read of a pattern since the last group was opened,
alternatives and items in reverse. -/
structure Partial where
  verbose : Bool
  names : List String
  branches : List Syntax := []
  items : List Syntax := []

namespace Partial

def push (p : Partial) (item : Syntax) : Partial := { p with items := item :: p.items }

def branch (p : Partial) : Partial :=
  { p with branches := sequenceOf p.items :: p.branches, items := [] }

def finish (p : Partial) : Syntax := alternativesOf (sequenceOf p.items :: p.branches)

def repeated? (p : Partial) (atLeast : Nat) (atMost : Option Nat) : Option Partial :=
  (repeatLast atLeast atMost p.items).map fun items => { p with items }

end Partial

/-- Read a pattern up to the parenthesis that closes its group, or to its end.
At most `limit` items are read. Gives the names of all groups, the pattern and
the rest. -/
def pattern : Nat → Partial → List Char → Option (List String × Syntax × List Char)
  | 0, _, _ => none
  | limit + 1, p, cs =>
    match skip p.verbose cs with
    | [] => some (p.names, p.finish, [])
    | c :: rest =>
      match c with
      | ')' => some (p.names, p.finish, ')' :: rest)
      | '|' => pattern limit p.branch rest
      | '(' => do
        match ← groupOpening p.verbose rest with
        | (.flags flags, later) =>
          pattern limit { p.push (.flags flags) with verbose := verboseAfter p.verbose flags } later
        | (.group kind, later) =>
          let names ← addName? p.names kind
          let verbose := match kind with
            | .flagged flags => verboseAfter p.verbose flags
            | _ => p.verbose
          match ← pattern limit { verbose, names } later with
          | (names, body, ')' :: last) =>
            pattern limit { p.push (.group kind body) with names } last
          | _ => none
      | '[' => do
        let (item, later) ← bracketed p.verbose rest
        pattern limit (p.push item) later
      | '?' => do pattern limit (← p.repeated? 0 (some 1)) (dropQuestion rest)
      | '*' => do pattern limit (← p.repeated? 0 none) (dropQuestion rest)
      | '+' => do pattern limit (← p.repeated? 1 none) (dropQuestion rest)
      | '{' => do
        let ((low, high), later) ← bounds p.verbose rest
        pattern limit (← p.repeated? low high) later
      | '\\' => do
        let (item, later) ← escape p.verbose rest
        pattern limit (p.push item.toSyntax) later
      | '.' => pattern limit (p.push .dot) rest
      | '^' => pattern limit (p.push (.assertion .lineStart)) rest
      | '$' => pattern limit (p.push (.assertion .lineEnd)) rest
      | c => pattern limit (p.push (.char c)) rest

end Reader

def depthLimit : Nat := 250

/-- The pattern that a text is, if it is one. -/
def Syntax.read? (text : String) : Option Syntax :=
  let cs := text.toList
  match Reader.pattern (cs.length + 1) { verbose := false, names := [] } cs with
  | some (_, read, []) => if read.depth ≤ depthLimit then some read else none
  | _ => none

end BlockLang.Pattern
