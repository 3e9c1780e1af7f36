import Mathlib
import Proximity.Bytes

/-! Byte strings of one length and the numbers that fit it are the same, and their first bytes are
remainders. -/

namespace Proximity.Bytes

/-- A string spells a number that fits its length. -/
theorem toNat_lt (data : Bytes) : toNat data < 256 ^ data.length := by
  induction data with
  | nil => exact Nat.one_pos
  | cons byte rest ih =>
    -- The number grows by a factor of 256, which leaves room for one more byte.
    have small := byte.toNat_lt
    rw [toNat, List.length_cons, pow_succ']
    omega

/-- The first byte is what is left over by 256. -/
theorem toNat_cons_mod (byte : UInt8) (rest : Bytes) : toNat (byte :: rest) % 256 = byte.toNat := by
  have small := byte.toNat_lt
  rw [toNat]
  omega

/-- The other bytes are the quotient by 256. -/
theorem toNat_cons_div (byte : UInt8) (rest : Bytes) : toNat (byte :: rest) / 256 = toNat rest := by
  have small := byte.toNat_lt
  rw [toNat]
  omega

/-- A string is written again from the number it spells. -/
theorem ofNat_toNat (data : Bytes) : ofNat data.length (toNat data) = data := by
  induction data with
  | nil => rfl
  | cons byte rest ih =>
    -- A number's first byte does not depend on more than its remainder.
    have low : UInt8.ofNat (toNat (byte :: rest)) = byte := by
      apply UInt8.toNat_inj.mp
      rw [UInt8.toNat_ofNat']
      exact toNat_cons_mod byte rest
    rw [List.length_cons, ofNat, low, toNat_cons_div, ih]

/-- The first bytes of a string spell its remainder by the numbers of that width. -/
theorem toNat_take (width : Nat) (data : Bytes) :
    toNat (data.take width) = toNat data % 256 ^ width := by
  induction width generalizing data with
  | zero => rw [List.take_zero, pow_zero, Nat.mod_one, toNat]
  | succ width ih =>
    cases data with
    | nil => rw [List.take_nil, toNat, Nat.zero_mod]
    | cons byte rest =>
      -- The remainder is the first byte and the remainder of the others.
      rw [List.take_succ_cons, toNat, ih, pow_succ', Nat.mod_mul, toNat_cons_mod, toNat_cons_div]

end Proximity.Bytes
