/-! # Syntax of patterns

A pattern as it is written, before flags are taken into account. It may hold more than validators
accept, so that what they refuse can be told from what is no pattern at all.
-/

namespace BlockLang.Pattern

inductive Flag where
  | ignoreCase
  | multiLine
  | dotAll
  | swapGreed
  | unicode
  | carriageReturn
  | verbose
  deriving DecidableEq, Repr

namespace Flag

def letter : Flag → Char
  | ignoreCase => 'i'
  | multiLine => 'm'
  | dotAll => 's'
  | swapGreed => 'U'
  | unicode => 'u'
  | carriageReturn => 'R'
  | verbose => 'x'

def ofLetter? (c : Char) : Option Flag :=
  [ignoreCase, multiLine, dotAll, swapGreed, unicode, carriageReturn, verbose].find? (·.letter = c)

end Flag

abbrev Flags := List (Flag × Bool)

inductive Shorthand where
  | digit
  | space
  | word
  deriving DecidableEq, Repr

inductive Named where
  | alnum
  | alpha
  | ascii
  | blank
  | cntrl
  | digit
  | graph
  | lower
  | print
  | punct
  | space
  | upper
  | word
  | xdigit
  deriving DecidableEq, Repr

namespace Named

def spelling : Named → String
  | alnum => "alnum"
  | alpha => "alpha"
  | ascii => "ascii"
  | blank => "blank"
  | cntrl => "cntrl"
  | digit => "digit"
  | graph => "graph"
  | lower => "lower"
  | print => "print"
  | punct => "punct"
  | space => "space"
  | upper => "upper"
  | word => "word"
  | xdigit => "xdigit"

def ofSpelling? (name : String) : Option Named :=
  [alnum, alpha, ascii, blank, cntrl, digit, graph, lower, print, punct, space, upper, word,
   xdigit].find? (·.spelling = name)

end Named

inductive SetOperation where
  | intersection
  | difference
  | symmetricDifference
  deriving DecidableEq, Repr

mutual

inductive ClassItem where
  | char (c : Char)
  | range (first last : Char)
  | shorthand (kind : Shorthand) (negated : Bool)
  | named (kind : Named) (negated : Bool)
  | nested (negated : Bool) (set : ClassSet)

inductive ClassSet where
  | union (items : List ClassItem)
  | operation (kind : SetOperation) (left right : ClassSet)

end

inductive Assertion where
  | lineStart
  | lineEnd
  | textStart
  | textEnd
  | wordBoundary
  | notWordBoundary
  | wordStart
  | wordEnd
  | wordStartHalf
  | wordEndHalf
  deriving DecidableEq, Repr

inductive Group where
  | captured
  | named (name : String)
  /-- A name behind a `P`. -/
  | namedWithLetter (name : String)
  | flagged (flags : Flags)
  deriving DecidableEq, Repr

/-- A pattern as it is written. What its parts match depends on flags, which may
stand anywhere before them. -/
inductive Syntax where
  | empty
  | char (c : Char)
  /-- A character written as two hexadecimal digits. -/
  | byte (c : Char)
  | dot
  | assertion (kind : Assertion)
  | shorthand (kind : Shorthand) (negated : Bool)
  | bracketed (negated : Bool) (set : ClassSet)
  | repeated (atLeast : Nat) (atMost : Option Nat) (body : Syntax)
  | group (kind : Group) (body : Syntax)
  | flags (flags : Flags)
  | sequence (items : List Syntax)
  | alternatives (items : List Syntax)

mutual

def ClassItem.depth : ClassItem → Nat
  | .char _ | .range _ _ | .shorthand _ _ | .named _ _ => 0
  | .nested _ set => set.depth + 1

def ClassSet.depth : ClassSet → Nat
  | .union items => ClassItem.maxDepth items + (if items.length < 2 then 0 else 1)
  | .operation _ left right => max left.depth right.depth + 1

def ClassItem.maxDepth : List ClassItem → Nat
  | [] => 0
  | item :: rest => max item.depth (ClassItem.maxDepth rest)

end

mutual

def Syntax.depth : Syntax → Nat
  | .empty | .char _ | .byte _ | .dot | .assertion _ | .shorthand _ _ | .flags _ => 0
  | .bracketed _ set => set.depth + 1
  | .repeated _ _ body | .group _ body => body.depth + 1
  | .sequence items | .alternatives items => Syntax.maxDepth items + 1

def Syntax.maxDepth : List Syntax → Nat
  | [] => 0
  | item :: rest => max item.depth (Syntax.maxDepth rest)

end

end BlockLang.Pattern
