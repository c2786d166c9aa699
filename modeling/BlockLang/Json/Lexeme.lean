import BlockLang.Json.Number

/-! # Lexemes of JSON text

A JSON text is first cut into marks, words, numbers and strings. A string whose escapes leave a
surrogate unpaired, and a number beyond the doubles, are lexemes without a value: they are well
formed where nothing asks for their value.
-/

namespace BlockLang.Json

inductive Lexeme where
  | openArray
  | closeArray
  | openObject
  | closeObject
  | comma
  | colon
  /-- A number or one of the words, with its value. -/
  | scalar (value : Option Json)
  | string (value : Option String)

/-- A part of a string: a character, or a UTF-16 code unit given by its number.
Two units may be one character. -/
inductive Piece where
  | char (c : Char)
  | unit (n : Nat)

/-- The characters that the parts of a string spell, when every surrogate has
its pair. -/
def Piece.join? : List Piece → Option (List Char)
  | [] => some []
  | .char c :: rest => (c :: ·) <$> join? rest
  | .unit high :: .unit low :: rest =>
    if 0xD800 ≤ high ∧ high < 0xDC00 then
      if 0xDC00 ≤ low ∧ low < 0xE000 then
        (Char.ofNat (0x10000 + (high - 0xD800) * 0x400 + (low - 0xDC00)) :: ·) <$> join? rest
      else none
    else if 0xDC00 ≤ high ∧ high < 0xE000 then none
    else (Char.ofNat high :: ·) <$> join? (.unit low :: rest)
  | .unit n :: rest =>
    if 0xD800 ≤ n ∧ n < 0xE000 then none else (Char.ofNat n :: ·) <$> join? rest

def hexValue? (c : Char) : Option Nat :=
  if c.isDigit then some (c.toNat - '0'.toNat)
  else if 'a' ≤ c ∧ c ≤ 'f' then some (c.toNat - 'a'.toNat + 10)
  else if 'A' ≤ c ∧ c ≤ 'F' then some (c.toNat - 'A'.toNat + 10)
  else none

def escaped? (c : Char) : Option Char :=
  if c = '"' ∨ c = '\\' ∨ c = '/' then some c
  else if c = 'b' then some '\x08'
  else if c = 'f' then some '\x0c'
  else if c = 'n' then some '\n'
  else if c = 'r' then some '\r'
  else if c = 't' then some '\t'
  else none

/-- The parts of a string up to its closing quote, and how many characters they
and the quote take. -/
def takePieces? : List Char → Option (List Piece × Nat)
  | [] => none
  | '"' :: _ => some ([], 1)
  | '\\' :: 'u' :: a :: b :: c :: d :: rest => do
    let n := 0x1000 * (← hexValue? a) + 0x100 * (← hexValue? b) + 0x10 * (← hexValue? c)
      + (← hexValue? d)
    let (pieces, size) ← takePieces? rest
    return (.unit n :: pieces, size + 6)
  | '\\' :: e :: rest => do
    let c ← escaped? e
    let (pieces, size) ← takePieces? rest
    return (.char c :: pieces, size + 2)
  | c :: rest =>
    if c = '\\' ∨ c.toNat < 0x20 then none
    else do
      let (pieces, size) ← takePieces? rest
      return (.char c :: pieces, size + 1)

/-- The lexeme that starts with a character, and how many characters it takes
after that one. -/
def takeLexeme? (c : Char) (rest : List Char) : Option (Lexeme × Nat) :=
  if c = '[' then some (.openArray, 0)
  else if c = ']' then some (.closeArray, 0)
  else if c = '{' then some (.openObject, 0)
  else if c = '}' then some (.closeObject, 0)
  else if c = ',' then some (.comma, 0)
  else if c = ':' then some (.colon, 0)
  else if c = '"' then do
    let (pieces, size) ← takePieces? rest
    return (.string (String.ofList <$> Piece.join? pieces), size)
  else if c = 'n' ∧ "ull".toList.isPrefixOf rest then some (.scalar (some .null), 3)
  else if c = 't' ∧ "rue".toList.isPrefixOf rest then some (.scalar (some (.bool true)), 3)
  else if c = 'f' ∧ "alse".toList.isPrefixOf rest then some (.scalar (some (.bool false)), 4)
  else do
    let numeral ← Numeral.take? (c :: rest)
    return (.scalar numeral.value, numeral.size - 1)

def isSpace (c : Char) : Bool := c = ' ' || c = '\t' || c = '\n' || c = '\r'

def lexemes? : List Char → Option (List Lexeme)
  | [] => some []
  | c :: rest =>
    if isSpace c then lexemes? rest
    else do
      let (lexeme, size) ← takeLexeme? c rest
      let more ← lexemes? (rest.drop size)
      return lexeme :: more
termination_by cs => cs.length
decreasing_by all_goals simp; try omega

end BlockLang.Json
