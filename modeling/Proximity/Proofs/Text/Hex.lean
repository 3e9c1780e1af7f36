import Mathlib
import Proximity.Text.Hex

/-! Byte strings that are written in hexadecimal digits are read back. -/

namespace Proximity.Text

/-- Each of the sixteen digits has its own value, and stands inside a pair. -/
theorem hexValue?_hexDigits : ∀ value < 16, hexValue? (hexDigits.getD value '0') = some value ∧
    isHexGap (hexDigits.getD value '0') = false := by
  decide

/-- The two digits of a byte are read as the byte. -/
theorem readPairs?_hexPair (byte : UInt8) (rest : List Char) :
    readPairs? (hexPair byte ++ rest) = (readPairs? rest).map (byte :: ·) := by
  have below : byte.toNat < 256 := byte.toNat_lt
  obtain ⟨high, solid⟩ := hexValue?_hexDigits (byte.toNat / 16) (by omega)
  obtain ⟨low, _⟩ := hexValue?_hexDigits (byte.toNat % 16) (by omega)
  -- A byte is its high half times sixteen plus its low half.
  have halves : UInt8.ofNat (16 * (byte.toNat / 16) + byte.toNat % 16) = byte := by
    rw [Nat.div_add_mod, UInt8.ofNat_toNat]
  simp only [hexPair, List.cons_append, List.nil_append, readPairs?, solid, high, low,
    Option.bind_eq_bind, Option.bind_some, halves]
  cases readPairs? rest <;> rfl

/-- A byte string is read back from its digits. -/
theorem readHex?_writeHex (data : Bytes) : readHex? (writeHex data) = some data := by
  have text : (writeHex data).toList = data.flatMap hexPair := String.toList_ofList
  rw [readHex?, text]
  -- Two digits at a time rebuild one byte.
  clear text
  induction data with
  | nil => simp [readPairs?]
  | cons byte rest ih => rw [List.flatMap_cons, readPairs?_hexPair, ih, Option.map_some]

end Proximity.Text
