import Mathlib.Data.List.Basic

/-!
# Text as bytes

A text and its UTF-8 bytes as a list. Reading a list of bytes back is partial: it
succeeds exactly on the bytes of a text.
-/

namespace MiningInfra.Lib

def utf8 (text : String) : List UInt8 := text.toByteArray.data.toList

/-- `String::from_utf8`. -/
def fromUtf8 (bytes : List UInt8) : Option String := String.fromUTF8? bytes.toByteArray

theorem toByteArray_utf8 (text : String) : (utf8 text).toByteArray = text.toByteArray := by
  refine ByteArray.ext (List.data_toByteArray.trans ?_)
  rw [utf8]

@[simp] theorem fromUtf8_utf8 (text : String) : fromUtf8 (utf8 text) = some text := by
  rw [fromUtf8, toByteArray_utf8, String.fromUTF8?, dif_pos text.isValidUTF8]
  rfl

theorem fromUtf8_eq_some {bytes : List UInt8} {text : String} :
    fromUtf8 bytes = some text ↔ utf8 text = bytes := by
  constructor
  · intro h
    rw [fromUtf8, String.fromUTF8?] at h
    split at h
    · cases h
      exact congrArg Array.toList (List.data_toByteArray)
    · cases h
  · intro h
    rw [← h, fromUtf8_utf8]

end MiningInfra.Lib
