import BlockLang.Source.Position
import BlockLang.Tree.Verb

/-! # Tokens

The words, literals and marks of the block language, each at its position in the source.
-/

namespace BlockLang

/-- A word that opens a block. -/
inductive Keyword where
  | data
  | action
  | route
  | migration
  | importing
  deriving DecidableEq, Repr

namespace Keyword

def spelling : Keyword → String
  | data => "data"
  | action => "do"
  | route => "route"
  | migration => "migration"
  | importing => "import"

def all : List Keyword := [data, action, route, migration, importing]

def ofWord? (word : String) : Option Keyword := all.find? (·.spelling = word)

end Keyword

inductive Mark where
  | parenOpen
  | parenClose
  | braceOpen
  | braceClose
  | bracketOpen
  | bracketClose
  | comma
  | colon
  | pipe
  | question
  | arrow
  deriving DecidableEq, Repr

def Mark.spelling : Mark → String
  | parenOpen => "("
  | parenClose => ")"
  | braceOpen => r"{"
  | braceClose => r"}"
  | bracketOpen => "["
  | bracketClose => "]"
  | comma => ","
  | colon => ":"
  | pipe => "|"
  | question => "?"
  | arrow => "=>"

namespace Token

inductive Kind where
  | keyword (keyword : Keyword)
  | verb (verb : Verb)
  | name
  /-- A string between double quotes. -/
  | string
  | number
  /-- A string that a newline or the end of the source cuts short. -/
  | unterminated
  | mark (mark : Mark)
  deriving DecidableEq, Repr

namespace Kind

def describe : Kind → String
  | keyword _ => "keyword"
  | verb _ => "HTTP verb"
  | name => "identifier"
  | string => "string"
  | number => "number"
  | unterminated => "unterminated string"
  | mark m => "'" ++ m.spelling ++ "'"

def ofWord (word : String) : Kind :=
  match Keyword.ofWord? word, Verb.ofWord? word with
  | some k, _ => keyword k
  | none, some v => verb v
  | none, none => name

/-- Whether a token of this kind can stand where a name is expected. Keywords
and verbs can, so no name is forbidden. -/
def isWord : Kind → Bool
  | keyword _ | verb _ | name => true
  | string | number | unterminated | mark _ => false

end Kind

end Token

/-- A token with its text and the position of its first byte. -/
structure Token where
  kind : Token.Kind
  text : String
  position : Position
  deriving DecidableEq, Repr

/-- The tokens of a source from some position on, and the position of its
end. -/
structure Tokens where
  items : List Token
  stop : Position
  deriving DecidableEq, Repr

end BlockLang
