/-! # Texts and their UTF-8 bytes

Offsets into a source are byte offsets, and a scan may stop inside a character. A text is
therefore scanned as its list of bytes, and a stretch of bytes reads back as a text when it
holds whole characters.
-/

namespace BlockLang.Text

def bytes (s : String) : List UInt8 := s.toByteArray.data.toList

/-- The text that a list of bytes encodes, when it encodes one. -/
def ofBytes? (bs : List UInt8) : Option String := String.fromUTF8? ⟨bs.toArray⟩

/-- The text of a stretch of bytes; a stretch that cuts a character reads as the
empty text. -/
def ofBytes (bs : List UInt8) : String := (ofBytes? bs).getD ""

theorem ofBytes?_bytes (s : String) : ofBytes? (bytes s) = some s := by
  simp only [ofBytes?, bytes, String.fromUTF8?, Array.toArray_toList]
  exact dif_pos s.isValidUTF8

theorem ofBytes_bytes (s : String) : ofBytes (bytes s) = s := by
  simp [ofBytes, ofBytes?_bytes]

/-- Whether a byte continues a character that an earlier byte began. -/
def isContinuation (b : UInt8) : Bool := 0x80 ≤ b && b < 0xC0

end BlockLang.Text
