import BlockLang.Text.Unprintable

/-! # Texts with every character visible

A text stands between double quotes, and each character that cannot be seen by itself is written
as its code point.
-/

namespace BlockLang.Text

def codePoint (c : Char) : List Char :=
  '\\' :: 'u' :: '{' :: Nat.toDigits 16 c.toNat ++ ['}']

def visibleChar (c : Char) : List Char :=
  if c.toNat = 0 then ['\\', '0']
  else if c = '\t' then ['\\', 't']
  else if c = '\r' then ['\\', 'r']
  else if c = '\n' then ['\\', 'n']
  else if c = '"' ∨ c = '\\' then ['\\', c]
  else if extending.contains c ∨ unprintable.contains c then codePoint c
  else [c]

/-- A text between double quotes with every character visible. -/
def visible (s : String) : String :=
  String.ofList ('"' :: s.toList.flatMap visibleChar ++ ['"'])

end BlockLang.Text
