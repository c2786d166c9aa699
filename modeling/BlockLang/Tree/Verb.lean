/-! # HTTP verbs -/

namespace BlockLang

/-- The HTTP verb that a route answers. -/
inductive Verb where
  | get
  | post
  | put
  | delete
  | patch
  deriving DecidableEq, Repr

namespace Verb

def spelling : Verb → String
  | get => "GET"
  | post => "POST"
  | put => "PUT"
  | delete => "DELETE"
  | patch => "PATCH"

def all : List Verb := [get, post, put, delete, patch]

def ofWord? (word : String) : Option Verb := all.find? (·.spelling = word)

theorem ofWord?_spelling (v : Verb) : ofWord? v.spelling = some v := by
  cases v <;> decide

end Verb

end BlockLang
