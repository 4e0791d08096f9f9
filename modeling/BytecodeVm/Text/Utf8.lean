/- # UTF-8

Texts and bytes.  `decode_eq_some_iff`: the bytes that decode to a text are exactly its encoding, so
decoding accepts valid UTF-8 and nothing else.
-/

namespace BytecodeVm.Utf8

/-- The bytes of a text. -/
def encode (text : String) : List UInt8 :=
  text.toByteArray.data.toList

/-- The text that the bytes encode, unless they are not valid UTF-8. -/
def decode (bytes : List UInt8) : Option String :=
  String.fromUTF8? ⟨bytes.toArray⟩

/-- Decoding undoes encoding. -/
theorem decode_encode (text : String) : decode (encode text) = some text := by
  have h : (⟨(encode text).toArray⟩ : ByteArray) = text.toByteArray := by simp [encode]
  simp [decode, String.fromUTF8?, h, text.isValidUTF8, String.fromUTF8]

/-- What decodes is an encoding. -/
theorem eq_encode_of_decode {bytes : List UInt8} {text : String} (h : decode bytes = some text) :
    bytes = encode text := by
  simp only [decode, String.fromUTF8?] at h
  split at h
  · cases h
    simp [encode, String.fromUTF8]
  · simp at h

theorem decode_eq_some_iff {bytes : List UInt8} {text : String} :
    decode bytes = some text ↔ bytes = encode text :=
  ⟨eq_encode_of_decode, fun h => h ▸ decode_encode text⟩

end BytecodeVm.Utf8
