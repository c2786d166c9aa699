import BlockLang.Source.Scan
import BlockLang.Tree.Basic
import BlockLang.Tree.Parser.Rule

/-! # Reading actions

An action is a name, parameters and a body. The body is taken from the raw source, and reading
goes on behind it. The tokens already made of the body may be wrong, for the body is in another
language; they are kept only if the closing brace is among them at its very offset.
-/

namespace BlockLang.Parser

/-- Read parameters up to the closing parenthesis. -/
def params (stop : Position) : List Token → Outcome (List String)
  | [] => .error (unexpected stop .parameterOrClose [])
  | t :: rest =>
    if isMark .parenClose t then .ok ([], rest)
    else if t.kind.isWord then
      match rest with
      | [] => .error (unexpected stop (.mark .parenClose) [])
      | separator :: later =>
        if isMark .comma separator then
          match params stop later with
          | .error e => .error e
          | .ok (more, last) => .ok (t.text :: more, last)
        else if isMark .parenClose separator then .ok ([t.text], later)
        else .error (unexpected stop (.mark .parenClose) (separator :: later))
    else .error (unexpected stop .parameterOrClose (t :: rest))

def signature (stop : Position) (ts : List Token) :
    Except ParseError ((String × List String) × List Token) := do
  let (name, ts) ← expect stop .actionName word ts
  let (_, ts) ← expectMark stop .parenOpen ts
  let (params, ts) ← params stop ts
  return ((name, params), ts)

def bodyBrace (stop : Position) (ts : List Token) : Except ParseError Position :=
  match ts with
  | [] => .error (unexpected stop .bodyOpen [])
  | t :: rest =>
    if isMark .braceOpen t then .ok t.position
    else .error (unexpected stop .bodyOpen (t :: rest))

/-- The tokens behind a block, made anew from the source, at the positions that
they have in it. -/
def rescan (source : List UInt8) (block : Block) : Tokens :=
  Tokens.scan (Position.ofOffset source block.endOffset) (source.drop block.endOffset)

/-- The tokens behind a block: those after its closing brace if the brace is
among the tokens, else the tokens made anew. -/
def skipBody (source : List UInt8) (block : Block) (ts : Tokens) : Tokens :=
  match ts.items.dropWhile (·.position.offset < block.closeOffset) with
  | [] => rescan source block
  | t :: later =>
    if t.position.offset = block.closeOffset ∧ isMark .braceClose t then { ts with items := later }
    else rescan source block

/-- Read an action behind its keyword, which stands on `line`. The search by
line gives an error or nothing: the body is that of the brace itself. -/
def action (source : List UInt8) (line : Nat) (ts : Tokens) :
    Except SyntaxError (Action × Tokens) := do
  let ((name, params), items) ← (signature ts.stop ts.items).mapError .parse
  let brace ← (bodyBrace ts.stop items).mapError .parse
  let _ ← (Block.locate source brace.line).mapError .block
  let block ← (Block.extract source brace.offset).mapError .block
  return ({ name, params, body := block.text, line },
    skipBody source block { ts with items })

end BlockLang.Parser
