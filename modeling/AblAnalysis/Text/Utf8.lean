/-!
Text as UTF-8 bytes. Reading is strict: it accepts exactly the encodings of texts.
-/

namespace AblAnalysis.Text

/-- The UTF-8 bytes of a text. -/
def utf8 (s : String) : List UInt8 :=
  s.toByteArray.data.toList

/-- The text encoded by `bytes`, if they are valid UTF-8. -/
def ofUtf8? (bytes : List UInt8) : Option String :=
  String.fromUTF8? ⟨bytes.toArray⟩

theorem length_utf8 (s : String) : (utf8 s).length = s.utf8ByteSize := rfl

theorem ofUtf8?_utf8 (s : String) : ofUtf8? (utf8 s) = some s := by
  have h : (⟨(utf8 s).toArray⟩ : ByteArray) = s.toByteArray := rfl
  simp only [ofUtf8?, h, String.fromUTF8?, dif_pos s.isValidUTF8]
  rfl

end AblAnalysis.Text
