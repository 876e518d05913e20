/-
SyncSystem.Text.Utf8 — strings and their bytes.

Encoding and decoding are inverse, and a string whose bytes are the
beginning of another string's bytes is a beginning of that string.
-/
import Mathlib.Data.List.Infix

namespace SyncSystem.Text

theorem fromUTF8?_toUTF8 (s : String) : String.fromUTF8? s.toUTF8 = some s := by
  rw [String.toUTF8_eq_toByteArray, String.fromUTF8?, dif_pos s.isValidUTF8]
  rfl

theorem toUTF8_of_fromUTF8? {bytes : ByteArray} {s : String}
    (h : String.fromUTF8? bytes = some s) : s.toUTF8 = bytes := by
  unfold String.fromUTF8? at h
  split at h
  · cases h; rfl
  · cases h

theorem isEmpty_toUTF8 (s : String) : s.toUTF8.isEmpty = true ↔ s = "" := by
  rw [String.toUTF8_eq_toByteArray, ByteArray.isEmpty, ← String.toByteArray_eq_empty_iff]
  simp

/-- The bytes of a string say where it ends, also within longer ones. -/
theorem prefix_of_toUTF8_append {s t : String} {rest : ByteArray}
    (h : s.toUTF8 ++ rest = t.toUTF8) : s.toList <+: t.toList := by
  apply List.isPrefix_of_utf8Encode_append_eq_utf8Encode rest
  rw [String.utf8Encode_toList, String.utf8Encode_toList]
  exact h

end SyncSystem.Text
