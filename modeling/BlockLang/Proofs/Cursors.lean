import BlockLang.Proofs.AbsolutePositions
import Mathlib.Data.PFun

/-! # Parsing with a cursor

The parser as a machine: a cursor goes over the tokens of a source, the last of which marks the
end, and loops go on until they have what they look for. Behind a body the tokens from the cursor
on may be replaced. Nothing here bounds a loop, so a run need not end; every place that the cursor
comes to and every turn of a loop is noted.
-/

namespace BlockLang

/-! ## Cursors -/

inductive Cursor.Item where
  | token (t : Token)
  | ending (stop : Position)
  deriving DecidableEq, Repr

namespace Cursor.Item

def position : Item → Position
  | token t => t.position
  | ending stop => stop

def offset (i : Item) : Nat := i.position.offset

end Cursor.Item

def Tokens.entries (ts : Tokens) : List Cursor.Item := ts.items.map .token ++ [.ending ts.stop]

/-- A place among items. Items are not used up: reading only changes the place,
which may also go back. -/
structure Cursor where
  items : List Cursor.Item
  pos : Nat
  deriving DecidableEq, Repr

namespace Cursor

def start (source : List UInt8) : Cursor := ⟨(Tokens.ofSource source).entries, 0⟩

def current (c : Cursor) : Option Item := c.items[c.pos]?

def token? (c : Cursor) : Option Token :=
  match c.current with
  | some (.token t) => some t
  | _ => none

def isAt (c : Cursor) (m : Mark) : Bool := c.token?.any (Parser.isMark m)

/-- Whether a step of a pipeline may start behind the item at the cursor. -/
def stepAhead (c : Cursor) : Bool :=
  match c.items[c.pos + 1]? with
  | some (.token t) => Parser.startsStep [t]
  | _ => false

def advance (c : Cursor) : Cursor :=
  if c.pos + 1 < c.items.length then { c with pos := c.pos + 1 } else c

def back (c : Cursor) : Cursor := { c with pos := c.pos - 1 }

def unexpected (c : Cursor) (expected : Expectation) : ParseError :=
  match c.current with
  | some (.token t) => ⟨expected, .token t.kind t.text, t.position.line, t.position.column⟩
  | some (.ending stop) => ⟨expected, .endOfInput, stop.line, stop.column⟩
  | none => ⟨expected, .endOfInput, 0, 0⟩

/-- The place of the closing brace at an offset, if the first item that does not
lie before the offset is this brace. -/
def closing? (c : Cursor) (offset : Nat) : Option Nat :=
  let i := c.pos + ((c.items.drop c.pos).takeWhile (·.offset < offset)).length
  match c.items[i]? with
  | some (.token t) =>
    if t.position.offset = offset ∧ Parser.isMark .braceClose t then some i else none
  | _ => none

/-- The cursor behind a body: behind its closing brace if that is among the
items, else at the first of those made anew. -/
def skipBody (source : List UInt8) (block : Block) (c : Cursor) : Cursor :=
  match c.closing? block.closeOffset with
  | some i => { c with pos := i + 1 }
  | none => { c with items := c.items.take c.pos ++ (Parser.rescan source block).entries }

/-- Whether a cursor is at one of its items, of which exactly the last is the
end, and the offsets of which increase. -/
structure Sane (c : Cursor) : Prop where
  ends : ∃ ts : Tokens, c.items = ts.entries
  valid : c.pos < c.items.length
  increasing : c.items.Pairwise (·.offset < ·.offset)

end Cursor

/-! ## Machines -/

inductive Loop where
  | blocks
  | commas
  | fields
  | arguments
  | params
  | routes
  | pipeline
  | operations
  deriving DecidableEq, Repr

/-- What is noted of a run. Notes change nothing of what is read, and every
property of runs below is one of their notes. -/
inductive Event where
  | moved (cursor : Cursor)
  /-- A turn of a loop that is not its last. -/
  | turned (loop : Loop) (before after : Cursor)
  /-- A step back from a cursor to another, behind the word at which an operation begins. -/
  | stepped (word before after : Cursor)
  deriving DecidableEq, Repr

/-- Cursors stay sane, a turn of a loop leads to a larger offset, and a step
back leads to the word of an operation. -/
def Event.Good : Event → Prop
  | moved c => c.Sane
  | turned _ before after => before.Sane ∧ after.Sane ∧
      ∃ i j, before.current = some i ∧ after.current = some j ∧ i.offset < j.offset
  | stepped word before after => 0 < before.pos ∧ after = word ∧
      ∃ t, word.token? = some t ∧ t.kind.isWord = true

structure Trace where
  cursor : Cursor
  events : List Event

/-- A computation that moves the cursor and may fail. One that does not end
gives nothing, so ending is something to be proved. -/
abbrev Machine := ExceptT SyntaxError (StateT Trace Part)

namespace Machine

variable {α β σ : Type}

def exec (m : Machine α) (s : Trace) : Part (Except SyntaxError α × Trace) :=
  StateT.run (ExceptT.run m) s

def cursor : Machine Cursor := return (← get).cursor

def note (e : Event) : Machine Unit := modify fun s => { s with events := s.events ++ [e] }

def moveTo (c : Cursor) : Machine Unit := do
  modify fun s => { s with cursor := c }
  note (.moved c)

def pass : Machine Unit := do moveTo (← cursor).advance

def fail (expected : Expectation) : Machine α := do throw (.parse ((← cursor).unexpected expected))

def turn (kind : Loop) (step : σ → Machine (σ ⊕ β)) (state : σ) : Machine (σ ⊕ β) := do
  let before ← cursor
  match ← step state with
  | .inl next =>
    note (.turned kind before (← cursor))
    return .inl next
  | .inr result => return .inr result

def afterTurn : Except SyntaxError (σ ⊕ β) × Trace → (Except SyntaxError β × Trace) ⊕ (σ × Trace)
  | (.ok (.inl next), s) => .inr (next, s)
  | (.ok (.inr result), s) => .inl (.ok result, s)
  | (.error e, s) => .inl (.error e, s)

/-- Run a step again and again until it gives a result. Nothing bounds the
number of turns, as there is nothing to count down. -/
def loop (kind : Loop) (step : σ → Machine (σ ⊕ β)) (state : σ) : Machine β := fun s =>
  PFun.fix (fun p => ((turn kind step p.1).exec p.2).map afterTurn) (state, s)

/-! ## Reading -/

def eat (m : Mark) : Machine Bool := do
  if (← cursor).isAt m then
    pass
    return true
  else return false

def take (expected : Expectation) (accept : Token → Option α) : Machine α := do
  match (← cursor).token? >>= accept with
  | some a =>
    pass
    return a
  | none => fail expected

def takeMark (m : Mark) : Machine Unit := do
  if ← eat m then return () else fail (.mark m)

def takeText : Machine String := do
  let c ← cursor
  pass
  return (c.token?.map Token.text).getD ""

def takeLine : Machine Nat := do
  let c ← cursor
  pass
  return (c.current.map (·.position.line)).getD 0

def commaTurn (_ : Unit) : Machine (Unit ⊕ Unit) := do
  if ← eat .comma then return .inl () else return .inr ()

def skipCommas : Machine Unit := loop .commas commaTurn ()

/-- Read one more item, unless a brace closes behind those that have been
read. -/
def itemTurn (item : Machine α) (read : List α) : Machine (List α ⊕ List α) := do
  skipCommas
  if ← eat .braceClose then return .inr read
  else return .inl (read ++ [← item])

def untilBrace (kind : Loop) (item : Machine α) : Machine (List α) := loop kind (itemTurn item) []

/-- Read what follows a word among the arguments of a field: the word is a key
if a colon follows. -/
def wordArgument (read : Arguments × List String) (word : String) :
    Machine ((Arguments × List String) ⊕ Arguments) := do
  if ← eat .colon then
    let value ← take .argumentValue fun t =>
      if Parser.isArgumentValue t then some t.text else none
    return .inl (read.1.insert word (Parser.argumentOf value), read.2)
  else return .inl (read.1, read.2 ++ [word])

def argumentAt (read : Arguments × List String) (t : Token) :
    Machine ((Arguments × List String) ⊕ Arguments) := do
  if Parser.isMark .parenClose t then
    pass
    return .inr (Parser.withVariants read.1 read.2)
  else if Parser.isMark .comma t ∨ Parser.isMark .pipe t then
    pass
    return .inl read
  else if t.kind = .string ∨ t.kind = .number then return .inl (read.1, read.2 ++ [← takeText])
  else if t.kind.isWord then wordArgument read (← takeText)
  else fail .argumentOrClose

def argumentTurn (read : Arguments × List String) :
    Machine ((Arguments × List String) ⊕ Arguments) := do
  match (← cursor).token? with
  | none => fail .argumentOrClose
  | some t => argumentAt read t

def arguments : Machine Arguments := loop .arguments argumentTurn ([], [])

def optionalArguments : Machine Arguments := do
  if ← eat .parenOpen then arguments else return []

def field : Machine Field := do
  let name ← take .fieldOrClose Parser.word
  takeMark .colon
  let typeName ← take .typeName Parser.word
  let arguments ← optionalArguments
  let optional ← eat .question
  return { name, typeName, optional, arguments }

def schema : Machine Schema := do
  let line ← takeLine
  let name ← take .schemaName Parser.word
  takeMark .braceOpen
  let fields ← untilBrace .fields field
  return { name, fields, line }

def paramBehind (read : List String) (name : String) : Machine (List String ⊕ List String) := do
  if ← eat .comma then return .inl (read ++ [name])
  else
    takeMark .parenClose
    return .inr (read ++ [name])

/-- Read one more parameter, unless a parenthesis closes behind those that have
been read. -/
def paramTurn (read : List String) : Machine (List String ⊕ List String) := do
  if ← eat .parenClose then return .inr read
  else paramBehind read (← take .parameterOrClose Parser.word)

def params : Machine (List String) := loop .params paramTurn []

def signature : Machine (String × List String) := do
  let name ← take .actionName Parser.word
  takeMark .parenOpen
  let params ← params
  return (name, params)

def action (source : List UInt8) : Machine Action := do
  let line ← takeLine
  let (name, params) ← signature
  let c ← cursor
  match c.token?.filter (Parser.isMark .braceOpen) with
  | none => fail .bodyOpen
  | some brace =>
    match Block.locate source brace.position.line, Block.extract source brace.position.offset with
    | .error e, _ | .ok _, .error e => throw (.block e)
    | .ok _, .ok block =>
      moveTo (c.skipBody source block)
      return { name, params, body := block.text, line }

def step : Machine Step := do
  let word ← take .step Parser.word
  if word = "auth" then return .auth
  else if word = "validate" then
    if ← eat .parenOpen then
      let schema ← take .schemaName Parser.word
      takeMark .parenClose
      return .validate schema
    else return .action word
  else return .action word

/-- Read one more step behind a comma, which may stand before a closing
bracket. -/
def stepBehind (bracketed : Bool) (read : List Step) : Machine (List Step ⊕ List Step) := do
  if bracketed && (← cursor).isAt .bracketClose then return .inr read
  else return .inl (read ++ [← step])

def stepTurn (bracketed : Bool) (read : List Step) : Machine (List Step ⊕ List Step) := do
  let c ← cursor
  if c.isAt .comma then
    if !bracketed && !c.stepAhead then return .inr read
    else
      pass
      stepBehind bracketed read
  else return .inr read

def route : Machine Route := do
  let (verb, line) ← take .verbOrClose Parser.verb
  let path ← take .routePath Parser.string
  takeMark .arrow
  let bracketed ← eat .bracketOpen
  let first ← step
  let pipeline ← loop .pipeline (stepTurn bracketed) [first]
  if bracketed then takeMark .bracketClose
  return { verb, path, pipeline, line }

def skipLabel : Machine Unit := do
  if ((← cursor).token? >>= Parser.wordOrString).isSome then pass

def routes : Machine (List Route) := do
  pass
  skipLabel
  takeMark .braceOpen
  untilBrace .routes route

/-- Go back to the word of an operation that there is not, which has been
passed. -/
def unknownOperation (word : Cursor) : Machine Operation := do
  let c ← cursor
  moveTo c.back
  note (.stepped word c c.back)
  fail .operation

def operation : Machine Operation := do
  let first ← cursor
  if first.token?.any (·.kind.isWord) then
    match Parser.OperationWord.ofWord? (← takeText) with
    | some .addColumn =>
      let table ← take .tableName Parser.string
      let column ← take .columnName Parser.wordOrString
      let typeName ← take .columnType Parser.word
      return .addColumn table column typeName
    | some .dropColumn =>
      let table ← take .tableName Parser.string
      let column ← take .columnName Parser.wordOrString
      return .dropColumn table column
    | some .createTable => return .createTable (← take .tableName Parser.string)
    | some .dropTable => return .dropTable (← take .tableName Parser.string)
    | none => unknownOperation first
  else fail .operation

def migration : Machine Migration := do
  let line ← takeLine
  let version ← take .migrationVersion Parser.wordOrString
  takeMark .braceOpen
  let operations ← untilBrace .operations operation
  return { version, operations, line }

def importing : Machine Import := do
  let line ← takeLine
  let path ← take .importPath Parser.string
  return { path, line }

def block (source : List UInt8) (t : Token) : Machine Tree :=
  match t.kind with
  | .keyword .data => return Parser.ofSchema (← schema)
  | .keyword .action => return Parser.ofAction (← action source)
  | .keyword .route => return Parser.ofRoutes (← routes)
  | .keyword .migration => return Parser.ofMigration (← migration)
  | .keyword .importing => return Parser.ofImport (← importing)
  | .unterminated => fail .closingQuote
  | _ => do
    pass
    return {}

def blockTurn (source : List UInt8) (read : Tree) : Machine (Tree ⊕ Tree) := do
  match (← cursor).token? with
  | none => return .inr read
  | some t => return .inl (read ++ (← block source t))

/-- What comes of parsing a source, and the state behind it. -/
def parse (source : List UInt8) : Part (Except SyntaxError Tree × Trace) :=
  (loop .blocks (blockTurn source) {}).exec ⟨.start source, [.moved (.start source)]⟩

end Machine

end BlockLang
