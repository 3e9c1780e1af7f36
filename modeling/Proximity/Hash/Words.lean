import Proximity.Bytes

/-! Vectors of words, and the bytes of a digest they are written out to. -/

namespace Proximity.Words

/-- A state of eight words has a first place. -/
instance eightPlaces : @NeZero Nat Zero.ofOfNat0 8 := ⟨by decide⟩

/-- A block of sixteen words has a first place. -/
instance sixteenPlaces : @NeZero Nat Zero.ofOfNat0 16 := ⟨by decide⟩

/-- A vector with one entry replaced. -/
def put {α : Type} {size : Nat} (words : Vector α size) (place : Fin size) (word : α) :
    Vector α size :=
  words.set place.val word place.isLt

/-- The word that one of thirty-two bytes belongs to, out of eight. -/
def wordOfByte (byte : Fin 32) : Fin 8 :=
  ⟨byte.val / 4, Nat.div_lt_of_lt_mul byte.isLt⟩

/-- Eight words as bytes, the lowest byte of each first. -/
def lowFirst (words : Vector UInt32 8) : Vector UInt8 32 :=
  Vector.ofFn fun byte =>
    (words.get (wordOfByte byte) >>> UInt32.ofNat (8 * (byte.val % 4))).toUInt8

/-- Eight words as bytes, the highest byte of each first. -/
def highFirst (words : Vector UInt32 8) : Vector UInt8 32 :=
  Vector.ofFn fun byte =>
    (words.get (wordOfByte byte) >>> UInt32.ofNat (24 - 8 * (byte.val % 4))).toUInt8

/-- The number spelled by the bytes of one word of a block, the lowest first. -/
def spelled (block : Bytes) (size place : Nat) : Nat :=
  Bytes.toNat ((block.drop (size * place)).take size)

/-- A word turned to the right. -/
def turnRight (word amount : UInt32) : UInt32 :=
  word >>> amount ||| word <<< (32 - amount)

end Proximity.Words
