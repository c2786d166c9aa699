import BlockLang.Decimal.Layout
import BlockLang.Json.Value
import BlockLang.Text.Quoted

/-! # Writing JSON text

A value is written on one line without spaces, or over several lines with two spaces of
indentation for each level.
-/

namespace BlockLang.Json

/-- A double in JSON text is positional from 10⁻⁵ up to 10¹⁶ and keeps a
fraction there. -/
def doubleLayout : Decimal.Layout where
  tie := .toEven
  positional := fun e => -5 ≤ e && e < 16
  keepsFraction := true

def writeScalar : Json → String
  | .null => "null"
  | .bool true => "true"
  | .bool false => "false"
  | .whole value => toString value
  | .double value => doubleLayout.write value
  | .text value => Text.quoted value
  | .array _ | .object _ => ""

mutual

def compact : Json → String
  | .array items => "[" ++ String.intercalate "," (compactItems items) ++ "]"
  | .object members => r"{" ++ String.intercalate "," (compactMembers members) ++ r"}"
  | value => writeScalar value

def compactItems : List Json → List String
  | [] => []
  | item :: rest => item.compact :: compactItems rest

def compactMembers : List (String × Json) → List String
  | [] => []
  | (key, value) :: rest => (Text.quoted key ++ ":" ++ value.compact) :: compactMembers rest

end

def lineStart (level : Nat) : String := "\n" ++ String.ofList (List.replicate (2 * level) ' ')

/-- Parts of an array or object, each on its own line, between two brackets. -/
def bracketed (level : Nat) (opening closing : String) (parts : List String) : String :=
  if parts.isEmpty then opening ++ closing
  else opening ++ lineStart (level + 1) ++ String.intercalate ("," ++ lineStart (level + 1)) parts
    ++ lineStart level ++ closing

mutual

def prettyAt (level : Nat) : Json → String
  | .array items => bracketed level "[" "]" (prettyItems (level + 1) items)
  | .object members => bracketed level r"{" r"}" (prettyMembers (level + 1) members)
  | value => writeScalar value

def prettyItems (level : Nat) : List Json → List String
  | [] => []
  | item :: rest => item.prettyAt level :: prettyItems level rest

def prettyMembers (level : Nat) : List (String × Json) → List String
  | [] => []
  | (key, value) :: rest =>
    (Text.quoted key ++ ": " ++ value.prettyAt level) :: prettyMembers level rest

end

def pretty (value : Json) : String := value.prettyAt 0

end BlockLang.Json
