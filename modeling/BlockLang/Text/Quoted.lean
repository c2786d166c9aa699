/-! # Quoted texts

A text stands between double quotes with its quotes, backslashes and control characters escaped,
so that it is one line and its closing quote is the first one without a backslash before it.
-/

namespace BlockLang.Text

def hexDigit (n : Nat) : Char := (Nat.toDigits 16 (n % 16)).headD '0'

def escapeChar (c : Char) : List Char :=
  if c = '"' then ['\\', '"']
  else if c = '\\' then ['\\', '\\']
  else if c = '\n' then ['\\', 'n']
  else if c = '\r' then ['\\', 'r']
  else if c = '\t' then ['\\', 't']
  else if c.toNat = 0x08 then ['\\', 'b']
  else if c.toNat = 0x0C then ['\\', 'f']
  else if c.toNat < 0x20 then
    ['\\', 'u', '0', '0', hexDigit (c.toNat / 16), hexDigit (c.toNat % 16)]
  else [c]

def escape (cs : List Char) : List Char := cs.flatMap escapeChar

/-- A text between double quotes, as JSON and JavaScript both read it. -/
def quoted (s : String) : String := String.ofList ('"' :: escape s.toList ++ ['"'])

end BlockLang.Text
