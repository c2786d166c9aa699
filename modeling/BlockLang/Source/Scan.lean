import BlockLang.Source.Token
import BlockLang.Text.Utf8

/-! # Tokenizing

A source is cut into chunks: tokens, comments, blanks, and single bytes that start no token. Each
chunk is settled by its first byte and what follows, and only tokens are kept, so tokenizing
never fails and can start again at any chunk.
-/

namespace BlockLang

namespace Scan

def isDigit (b : UInt8) : Bool := '0'.toUInt8 ≤ b && b ≤ '9'.toUInt8

def isWordStart (b : UInt8) : Bool :=
  ('a'.toUInt8 ≤ b && b ≤ 'z'.toUInt8) || ('A'.toUInt8 ≤ b && b ≤ 'Z'.toUInt8) || b == '_'.toUInt8

def isWordPart (b : UInt8) : Bool := isWordStart b || isDigit b

/-- The mark that a single byte spells. -/
def markOf? (b : UInt8) : Option Mark :=
  if b = '('.toUInt8 then some .parenOpen
  else if b = ')'.toUInt8 then some .parenClose
  else if b = '{'.toUInt8 then some .braceOpen
  else if b = '}'.toUInt8 then some .braceClose
  else if b = '['.toUInt8 then some .bracketOpen
  else if b = ']'.toUInt8 then some .bracketClose
  else if b = ','.toUInt8 then some .comma
  else if b = ':'.toUInt8 then some .colon
  else if b = '|'.toUInt8 then some .pipe
  else if b = '?'.toUInt8 then some .question
  else none

def toLineEnd (bs : List UInt8) : Nat := (bs.takeWhile (· != '\n'.toUInt8)).length

/-- How many bytes follow up to the end of a block comment, its closing `*/`
included. -/
def toCommentEnd : List UInt8 → Nat
  | [] => 0
  | [_] => 1
  | a :: b :: rest =>
    if a = '*'.toUInt8 ∧ b = '/'.toUInt8 then 2 else toCommentEnd (b :: rest) + 1

/-- How many bytes of digits follow, and of a point with more digits after
them. -/
def toNumberEnd (bs : List UInt8) : Nat :=
  let whole := (bs.takeWhile isDigit).length
  match bs.drop whole with
  | point :: rest =>
    let fraction := (rest.takeWhile isDigit).length
    if point = '.'.toUInt8 ∧ fraction ≠ 0 then whole + 1 + fraction else whole
  | [] => whole

/-- The byte that an escaped byte stands for. -/
def unescape (b : UInt8) : UInt8 :=
  if b = 'n'.toUInt8 then '\n'.toUInt8
  else if b = 't'.toUInt8 then '\t'.toUInt8
  else if b = 'r'.toUInt8 then '\r'.toUInt8
  else b

/-- A string as read from behind its opening quote: its contents, how many bytes
it takes, and whether a quote closes it. -/
structure Quotation where
  contents : List UInt8
  size : Nat
  closed : Bool

def Quotation.cons (b : UInt8) (taken : Nat) (q : Quotation) : Quotation :=
  { q with contents := b :: q.contents, size := taken + q.size }

/-- The string that starts behind an opening quote. It ends at a quote, or
before a newline or the end of the source, where it is not closed. -/
def quotation : List UInt8 → Quotation
  | [] => ⟨[], 0, false⟩
  | b :: rest =>
    if b = '"'.toUInt8 then ⟨[], 1, true⟩
    else if b = '\n'.toUInt8 then ⟨[], 0, false⟩
    else if b = '\\'.toUInt8 then
      match rest with
      | [] => ⟨[], 1, false⟩
      | c :: after =>
        if c = '\n'.toUInt8 then ⟨[], 1, false⟩ else (quotation after).cons (unescape c) 2
    else (quotation rest).cons b 1

/-- A stretch of source read at once. -/
structure Chunk where
  /-- Kind and text of the token, unless the chunk is a comment, a blank or a skipped byte. -/
  token : Option (Token.Kind × String)
  /-- How many bytes the chunk has after its first. -/
  more : Nat

def Chunk.skip (more : Nat) : Chunk := ⟨none, more⟩

/-- The token whose text is the first byte and `more` bytes after it. -/
def Chunk.verbatim (kind : String → Token.Kind) (b : UInt8) (rest : List UInt8) (more : Nat) :
    Chunk :=
  let text := Text.ofBytes (b :: rest.take more)
  ⟨some (kind text, text), more⟩

def Chunk.ofQuotation (q : Quotation) : Chunk :=
  ⟨some (if q.closed then .string else .unterminated, Text.ofBytes q.contents), q.size⟩

/-- The chunk that starts with a byte, given the bytes that follow it. The order
of the cases matters: comments come before all else. -/
def Chunk.read (b : UInt8) (rest : List UInt8) : Chunk :=
  let after := rest.head?
  if b = '/'.toUInt8 ∧ after = some '/'.toUInt8 then .skip (toLineEnd rest)
  else if b = '/'.toUInt8 ∧ after = some '*'.toUInt8 then .skip (1 + toCommentEnd rest.tail)
  else if b = '='.toUInt8 ∧ after = some '>'.toUInt8 then
    ⟨some (.mark .arrow, Mark.arrow.spelling), 1⟩
  else if b = '"'.toUInt8 then .ofQuotation (quotation rest)
  else if isDigit b ∨ (b = '-'.toUInt8 ∧ after.any isDigit) then
    .verbatim (fun _ => .number) b rest (toNumberEnd rest)
  else if isWordStart b then .verbatim .ofWord b rest (rest.takeWhile isWordPart).length
  else match markOf? b with
    | some m => ⟨some (.mark m, m.spelling), 0⟩
    | none => .skip 0

/-- The tokens of the bytes from a position on, of which the first `skip` belong
to a chunk that was read before. -/
def tokensFrom (p : Position) (skip : Nat) : List UInt8 → List Token
  | [] => []
  | b :: rest =>
    match skip with
    | left + 1 => tokensFrom (p.next b) left rest
    | 0 =>
      let chunk := Chunk.read b rest
      let later := tokensFrom (p.next b) chunk.more rest
      match chunk.token with
      | some (kind, text) => ⟨kind, text, p⟩ :: later
      | none => later

end Scan

namespace Tokens

def scan (p : Position) (bs : List UInt8) : Tokens := ⟨Scan.tokensFrom p 0 bs, p.advance bs⟩

/-- The tokens of a source from an offset on, taken to lie at the given line and
column. Numbers outside of the source are brought inside. -/
def scanFrom (source : List UInt8) (offset line column : Nat) : Tokens :=
  let offset := min offset source.length
  scan ⟨offset, line, min (column - 1) offset + 1⟩ (source.drop offset)

def ofSource (source : List UInt8) : Tokens := scan .start source

end Tokens

end BlockLang
