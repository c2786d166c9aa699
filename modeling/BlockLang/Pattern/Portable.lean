/-! # Portable patterns

A pattern is checked when code is generated and again by the generated code, in another engine.
So constructs that the two engines read differently are refused. Flags may only stand at the very
start, because the other engine takes them beside the pattern.
-/

namespace BlockLang.Pattern

inductive Fault where
  | escape (c : Char)
  | namedClass
  | nestedClass
  | setOperation (c : Char)
  | group
  /-- The text is no regular expression. -/
  | malformed
  deriving DecidableEq, Repr

def malformedMessage : String := "not a regular expression"

def Fault.message : Fault → String
  | .escape c => "escape `\\" ++ c.toString ++ "` is not supported in validator patterns"
  | .namedClass =>
    "POSIX classes such as `[[:alpha:]]` are not supported in validator patterns"
  | .nestedClass => "nested character classes are not supported in validator patterns"
  | .setOperation c =>
    "class set operation `" ++ String.ofList [c, c]
      ++ "` is not supported in validator patterns"
  | .group =>
    "only `(?:...)` and `(?<name>...)` groups are supported; "
      ++ "flags go at the very start, as in `(?i)`"
  | .malformed => malformedMessage

def isUnportableEscape (c : Char) : Bool := ['A', 'z', 'p', 'P', 'Q', 'E'].contains c

/-- Whether a character that is doubled inside a class is a set operation. -/
def isSetOperation (c : Char) : Bool := ['&', '-', '~'].contains c

/-- The first construct that is not portable, read from left to right, with
`inClass` telling whether a bracketed class is open. -/
def portabilityFault? (inClass : Bool) : List Char → Option Fault
  | [] => none
  | '\\' :: [] => none
  | '\\' :: c :: rest =>
    if isUnportableEscape c then some (.escape c) else portabilityFault? inClass rest
  | '[' :: rest =>
    if inClass then some (if rest.head? = some ':' then .namedClass else .nestedClass)
    else portabilityFault? true rest
  | ']' :: rest => portabilityFault? false rest
  | '(' :: '?' :: rest =>
    if inClass then portabilityFault? inClass rest
    else
      match rest with
      | ':' :: later => portabilityFault? inClass later
      | '<' :: later =>
        if later.head? = some '=' ∨ later.head? = some '!' then some .group
        else portabilityFault? inClass later
      | _ => some .group
  | c :: rest =>
    if inClass ∧ isSetOperation c ∧ rest.head? = some c then some (.setOperation c)
    else portabilityFault? inClass rest

def portableFlags : List Char := ['i', 'm', 's']

/-- The flags of a leading group that holds portable flags only, and the pattern
behind it. -/
def splitFlags (cs : List Char) : List Char × List Char :=
  match cs with
  | '(' :: '?' :: rest =>
    match rest.span (· != ')') with
    | (flags, _ :: body) =>
      if !flags.isEmpty && flags.all portableFlags.contains then
        (portableFlags.filter flags.contains, body)
      else ([], cs)
    | (_, []) => ([], cs)
  | _ => ([], cs)

end BlockLang.Pattern
