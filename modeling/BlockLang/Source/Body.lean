import BlockLang.Source.Position
import BlockLang.Text.Blank
import BlockLang.Text.Utf8

/-! # Action bodies in the raw source

The body of an action is written in a language of its own, so its end is found in the raw bytes:
braces count unless they stand inside quotes or comments, and inside quotes a backslash takes the
next byte with it.
-/

namespace BlockLang

namespace Body

/-- What the bytes at some point of a body belong to. Only braces of code
count. -/
inductive Region where
  | code
  | quoted (quote : UInt8)
  | lineComment
  | blockComment
  deriving DecidableEq, Repr

def isQuote (b : UInt8) : Bool := b == '\''.toUInt8 || b == '"'.toUInt8 || b == '`'.toUInt8

/-- The offset of the brace that closes a block, when `depth` blocks are open at
`offset`; an error is the number of blocks still open at the end of the
bytes. -/
def closing (region : Region) (depth offset : Nat) : List UInt8 → Except Nat Nat
  | [] => .error depth
  | b :: rest =>
    match region with
    | .quoted quote =>
      if b = '\\'.toUInt8 then
        match rest with
        | [] => .error depth
        | _ :: after => closing region depth (offset + 2) after
      else closing (if b = quote then .code else region) depth (offset + 1) rest
    | .lineComment =>
      closing (if b = '\n'.toUInt8 then .code else region) depth (offset + 1) rest
    | .blockComment =>
      match rest with
      | [] => .error depth
      | next :: after =>
        if b = '*'.toUInt8 ∧ next = '/'.toUInt8 then closing .code depth (offset + 2) after
        else closing region depth (offset + 1) (next :: after)
    | .code =>
      if isQuote b then closing (.quoted b) depth (offset + 1) rest
      else if b = '/'.toUInt8 ∧ rest.head? = some '/'.toUInt8 then
        closing .lineComment depth (offset + 1) rest
      else if b = '/'.toUInt8 ∧ rest.head? = some '*'.toUInt8 then
        match rest with
        | [] => .error depth
        | _ :: after => closing .blockComment depth (offset + 2) after
      else if b = '{'.toUInt8 then closing region (depth + 1) (offset + 1) rest
      else if b = '}'.toUInt8 then
        if depth ≤ 1 then .ok offset else closing region (depth - 1) (offset + 1) rest
      else closing region depth (offset + 1) rest

end Body

structure Block where
  /-- What stands between the braces, without the blanks at its ends. -/
  text : String
  /-- The offset of the closing brace. -/
  closeOffset : Nat
  deriving DecidableEq, Repr

def Block.endOffset (block : Block) : Nat := block.closeOffset + 1

inductive BlockError where
  /-- No brace opens on the line. -/
  | noBrace (line : Nat)
  /-- The brace at the offset is never closed: `depth` blocks are open at the end. The column
  counts characters. -/
  | unbalanced (offset line column depth : Nat)
  deriving DecidableEq, Repr

namespace Block

/-- The bytes of a source from the start of a line on, lines being counted from
one. -/
def fromLine : Nat → List UInt8 → Option (List UInt8)
  | 0, _ => none
  | 1, bs => some bs
  | line + 2, bs =>
    match bs.dropWhile (· != '\n'.toUInt8) with
    | [] => none
    | _ :: next => fromLine (line + 1) next

/-- The offset of the first opening brace on a line. -/
def locate (source : List UInt8) (line : Nat) : Except BlockError Nat :=
  match fromLine line source with
  | none => .error (.noBrace line)
  | some rest =>
    match (rest.takeWhile (· != '\n'.toUInt8)).findIdx? (· == '{'.toUInt8) with
    | none => .error (.noBrace line)
    | some i => .ok (source.length - rest.length + i)

/-- The number of characters that begin among some bytes. -/
def charCount (bs : List UInt8) : Nat := bs.countP (!Text.isContinuation ·)

/-- The column of the character at the end of some bytes, counting characters
from one. -/
def charColumn (before : List UInt8) : Nat :=
  charCount (before.reverse.takeWhile (· != '\n'.toUInt8)) + 1

/-- The block whose opening brace lies at an offset. -/
def extract (source : List UInt8) (openOffset : Nat) : Except BlockError Block :=
  let contents := source.drop (openOffset + 1)
  match Body.closing .code 1 0 contents with
  | .ok size =>
    .ok ⟨Text.trim (Text.ofBytes (contents.take size)), openOffset + 1 + size⟩
  | .error depth =>
    let before := source.take openOffset
    .error (.unbalanced openOffset (before.count '\n'.toUInt8 + 1) (charColumn before) depth)

end Block

end BlockLang
