import BlockLang.Tree.Parser.Action
import BlockLang.Tree.Parser.Migration
import BlockLang.Tree.Parser.Route
import BlockLang.Tree.Parser.Schema

/-! # Parsing a source

A source is a sequence of blocks, each opened by its keyword. Tokens between blocks are passed
over, unless a string among them lacks its end.
-/

namespace BlockLang

namespace Parser

def ofSchema (schema : Schema) : Tree := { schemas := [schema] }

def ofAction (action : Action) : Tree := { actions := [action] }

def ofRoutes (routes : List Route) : Tree := { routes }

def ofMigration (migration : Migration) : Tree := { migrations := [migration] }

def ofImport (importing : Import) : Tree := { imports := [importing] }

/-- What a reader of tokens gives, as what a reader of a block gives. -/
def lift {α : Type} (ts : Tokens) (toTree : α → Tree)
    (outcome : Except ParseError (α × List Token)) : Except SyntaxError (Tree × Tokens) :=
  match outcome with
  | .ok (a, items) => .ok (toTree a, { ts with items })
  | .error e => .error (.parse e)

/-- Read the block that starts with a token, given the tokens behind it. A token
that starts no block is passed over. -/
def block (source : List UInt8) (t : Token) (ts : Tokens) : Except SyntaxError (Tree × Tokens) :=
  let line := t.position.line
  match t.kind with
  | .keyword .data => lift ts ofSchema (schema ts.stop line ts.items)
  | .keyword .action => (action source line ts).map fun (a, later) => (ofAction a, later)
  | .keyword .route => lift ts ofRoutes (routes ts.stop ts.items)
  | .keyword .migration => lift ts ofMigration (migration ts.stop line ts.items)
  | .keyword .importing => lift ts ofImport (importing ts.stop line ts.items)
  | .unterminated => .error (.parse (unexpected ts.stop .closingQuote [t]))
  | _ => .ok ({}, ts)

/-- Read blocks up to the end of the source, at most `limit` of them. Tokens
passed over count as blocks; every block is read from at least one byte, so a
limit above their number is not reached. -/
def blocks (source : List UInt8) : Nat → Tokens → Except SyntaxError Tree
  | 0, _ => .ok {}
  | limit + 1, ts =>
    match ts.items with
    | [] => .ok {}
    | t :: items =>
      match block source t { ts with items } with
      | .error e => .error e
      | .ok (tree, later) =>
        match blocks source limit later with
        | .error e => .error e
        | .ok more => .ok (tree ++ more)

end Parser

/-- The tree of the bytes of a source, which need not be a text. Bytes outside
ASCII start no token. -/
def Tree.ofBytes (source : List UInt8) : Except SyntaxError Tree :=
  Parser.blocks source (source.length + 1) (Tokens.ofSource source)

def Tree.ofSource (source : String) : Except SyntaxError Tree := Tree.ofBytes (Text.bytes source)

end BlockLang
