/-!
# Text/Bytes — texts as bytes

The UTF-8 bytes of a text as a list, and the text of a list of bytes, if they are valid.
-/

namespace Fieldbook.Text

def utf8 (s : String) : List UInt8 := s.toUTF8.data.toList

def ofUtf8? (bytes : List UInt8) : Option String := String.fromUTF8? ⟨bytes.toArray⟩

/-- **The bytes of a text read as that text.** -/
@[simp] theorem ofUtf8?_utf8 (s : String) : ofUtf8? (utf8 s) = some s := by
  simp only [ofUtf8?, utf8, Array.toArray_toList, String.fromUTF8?]
  exact dif_pos s.isValidUTF8

end Fieldbook.Text
