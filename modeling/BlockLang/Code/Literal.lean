import BlockLang.Decimal.Layout
import BlockLang.Text.Quoted

/-! # Literals of generated code

Texts, lists of texts and numbers as JavaScript reads them, and the words that it reserves.
-/

namespace BlockLang.Code

def string (value : String) : String := Text.quoted value

def strings (values : List String) : String :=
  "[" ++ String.intercalate ", " (values.map string) ++ "]"

def number (value : Double) : String := Decimal.plain.write value

/-- The words that cannot name a function or a parameter in a strict module. -/
def reservedWords : List String :=
  ["arguments", "await", "break", "case", "catch", "class", "const", "continue", "debugger",
   "default", "delete", "do", "else", "enum", "eval", "export", "extends", "false", "finally",
   "for", "function", "if", "implements", "import", "in", "instanceof", "interface", "let", "new",
   "null", "package", "private", "protected", "public", "return", "static", "super", "switch",
   "this", "throw", "true", "try", "typeof", "var", "void", "while", "with", "yield"]

def isReserved (word : String) : Bool := reservedWords.contains word

end BlockLang.Code
