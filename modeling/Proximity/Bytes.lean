/-! Byte strings, and the numbers they spell with the lowest byte first. -/

namespace Proximity

/-- A byte string of any length. -/
abbrev Bytes := List UInt8

namespace Bytes

/-- A number's lowest bytes, as many as asked for, the lowest first. -/
def ofNat : (width : Nat) → (value : Nat) → Bytes
  | 0, _ => []
  | width + 1, value => UInt8.ofNat value :: ofNat width (value / 256)

/-- The number a byte string spells with its lowest byte first. -/
def toNat : Bytes → Nat
  | [] => 0
  | byte :: rest => byte.toNat + 256 * toNat rest

/-- Blocks of one size taken off the front, as many as asked for. -/
def split (size : Nat) : (count : Nat) → Bytes → List Bytes
  | 0, _ => []
  | count + 1, data => data.take size :: split size count (data.drop size)

/-- The bytes a text occupies. -/
def ofText (text : String) : Bytes :=
  text.toUTF8.data.toList

/-- Every width is filled exactly. -/
@[simp] theorem length_ofNat (width value : Nat) : (ofNat width value).length = width := by
  -- The value shrinks at every byte, so it stays quantified over.
  induction width generalizing value with
  | zero => rfl
  | succ width ih => simp [ofNat, ih]

/-- A number that fits its width is read back from it. -/
theorem toNat_ofNat {width value : Nat} (fits : value < Nat.pow 256 width) :
    toNat (ofNat width value) = value := by
  induction width generalizing value with
  | zero =>
    have isZero : value = 0 := Nat.lt_one_iff.mp fits
    simp [ofNat, toNat, isZero]
  | succ width ih =>
    -- The low byte is the remainder, and the quotient fits the width that is left.
    have rest : value / 256 < Nat.pow 256 width :=
      Nat.div_lt_of_lt_mul (Nat.lt_of_lt_of_eq fits (Nat.mul_comm ..))
    simp only [ofNat, toNat, ih rest, UInt8.toNat_ofNat']
    omega

end Bytes

end Proximity
