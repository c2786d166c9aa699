import BlockLang.Json.Lexeme

/-! # Reading JSON text

A text is read to its syntax, which keeps repeated keys and their order, and the syntax to a
value. Reading the syntax keeps a stack of the arrays and objects that are still open, so it takes
one lexeme after another whatever the nesting.
-/

namespace BlockLang.Json

/-- A JSON text as written: scalars and strings may lack a value, keys may
repeat. -/
inductive Syntax where
  | scalar (value : Option Json)
  | string (value : Option String)
  | array (items : List Syntax)
  | object (members : List (Option String × Syntax))
  deriving Inhabited

namespace Syntax

inductive Frame where
  | array (items : List Syntax)
  | object (members : List (Option String × Syntax))
  /-- An object whose last key waits for its value. -/
  | member (key : Option String) (members : List (Option String × Syntax))

inductive Expecting where
  | value
  /-- A value, or the end of an array that is still empty. -/
  | valueOrClose
  | key
  /-- A key, or the end of an object that is still empty. -/
  | keyOrClose
  | colon
  | commaOrClose
  /-- The text is complete. -/
  | finished (result : Syntax)

structure Reader where
  stack : List Frame
  expecting : Expecting

/-- The reader after a complete value, which belongs to the innermost array or
object that is open. -/
def Reader.push? (stack : List Frame) (value : Syntax) : Option Reader :=
  match stack with
  | [] => some ⟨[], .finished value⟩
  | .array items :: outer => some ⟨.array (value :: items) :: outer, .commaOrClose⟩
  | .member key members :: outer => some ⟨.object ((key, value) :: members) :: outer, .commaOrClose⟩
  | .object _ :: _ => none

def Reader.begin? (stack : List Frame) : Lexeme → Option Reader
  | .openArray => some ⟨.array [] :: stack, .valueOrClose⟩
  | .openObject => some ⟨.object [] :: stack, .keyOrClose⟩
  | .scalar value => push? stack (.scalar value)
  | .string value => push? stack (.string value)
  | _ => none

def Reader.key? (stack : List Frame) : Lexeme → Option Reader
  | .string key =>
    match stack with
    | .object members :: outer => some ⟨.member key members :: outer, .colon⟩
    | _ => none
  | _ => none

def Reader.close? (stack : List Frame) (lexeme : Lexeme) : Option Reader :=
  match stack, lexeme with
  | .array items :: outer, .closeArray => push? outer (.array items.reverse)
  | .object members :: outer, .closeObject => push? outer (.object members.reverse)
  | _, _ => none

/-- The reader after one more lexeme, or none if the lexeme cannot follow. The
stack takes the place of a recursion. -/
def Reader.next? (reader : Reader) (lexeme : Lexeme) : Option Reader :=
  match reader.expecting with
  | .value => begin? reader.stack lexeme
  | .valueOrClose => close? reader.stack lexeme <|> begin? reader.stack lexeme
  | .key => key? reader.stack lexeme
  | .keyOrClose => close? reader.stack lexeme <|> key? reader.stack lexeme
  | .colon => match lexeme with
    | .colon => some ⟨reader.stack, .value⟩
    | _ => none
  | .commaOrClose => match lexeme, reader.stack with
    | .comma, .array _ :: _ => some ⟨reader.stack, .value⟩
    | .comma, .object _ :: _ => some ⟨reader.stack, .key⟩
    | lexeme, stack => close? stack lexeme
  | .finished _ => none

def read? (text : String) : Option Syntax := do
  let lexemes ← lexemes? text.toList
  let reader ← lexemes.foldlM Reader.next? ⟨[], .value⟩
  match reader.expecting with
  | .finished result => some result
  | _ => none

mutual

def depth : Syntax → Nat
  | .scalar _ | .string _ => 0
  | .array items => depthOfItems items + 1
  | .object members => depthOfMembers members + 1

def depthOfItems : List Syntax → Nat
  | [] => 0
  | item :: rest => max item.depth (depthOfItems rest)

def depthOfMembers : List (Option String × Syntax) → Nat
  | [] => 0
  | (_, value) :: rest => max value.depth (depthOfMembers rest)

end

mutual

def toJson? : Syntax → Option Json
  | .scalar value => value
  | .string value => .text <$> value
  | .array items => .array <$> itemsToJson? items
  | .object members => Json.ofMembers <$> membersToJson? members

def itemsToJson? : List Syntax → Option (List Json)
  | [] => some []
  | item :: rest => do return (← item.toJson?) :: (← itemsToJson? rest)

def membersToJson? : List (Option String × Syntax) → Option (List (String × Json))
  | [] => some []
  | (key, value) :: rest => do return (← key, ← value.toJson?) :: (← membersToJson? rest)

end

end Syntax

def depthLimit : Nat := 127

/-- The value of a JSON text; the last of a repeated key counts. -/
def read? (text : String) : Option Json := do
  let parsed ← Syntax.read? text
  if parsed.depth ≤ depthLimit then parsed.toJson? else none

end BlockLang.Json
