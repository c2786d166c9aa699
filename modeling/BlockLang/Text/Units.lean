/-! # Length in UTF-16 code units

A character beyond the basic plane takes two code units, every other one takes one.
-/

namespace BlockLang.Text

def unitsOfChar (c : Char) : Nat := if c.toNat < 0x10000 then 1 else 2

/-- The number of UTF-16 code units of a text, which is its length in generated
code. -/
def units (s : String) : Nat :=
  s.toList.foldr (fun c n => unitsOfChar c + n) 0

end BlockLang.Text
