/-! # Formats of texts

A format is a named pattern. Its pattern means the same to every engine that reads it.
-/

namespace BlockLang

inductive Format where
  | email
  | url
  | uuid
  deriving DecidableEq, Repr

namespace Format

def spelling : Format → String
  | email => "email"
  | url => "url"
  | uuid => "uuid"

/-- The format with a name, in any case of ASCII letters. -/
def ofName? (name : String) : Option Format :=
  [email, url, uuid].find? (·.spelling = name.map Char.toLower)

def pattern : Format → String
  | email => "^[^\\s@]+@[^\\s@]+\\.[^\\s@]+$"
  | url => "^https?://[^\\s/?#]+[^\\s]*$"
  | uuid =>
    "^[0-9a-fA-F]{8}-[0-9a-fA-F]{4}-[0-9a-fA-F]{4}-[0-9a-fA-F]{4}"
      ++ "-[0-9a-fA-F]{12}$"

end Format

end BlockLang
