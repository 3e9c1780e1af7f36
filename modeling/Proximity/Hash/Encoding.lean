import Proximity.Collect
import Proximity.Field.Basic
import Proximity.Hash.Hasher

/-! Rows of field elements as byte strings: one fixed width for each field, the lowest byte first. -/

namespace Proximity

/-- An integer in a fixed number of bytes, refused if it is negative or does not fit. -/
def encodeInteger (width : Nat) (value : Int) : Except Fault Bytes :=
  match value with
  | .ofNat magnitude =>
    if magnitude < Nat.pow 256 width then .ok (Bytes.ofNat width magnitude) else .error .wideInteger
  | .negSucc _ => .error .wideInteger

/-- Integers one behind the other, each in the same number of bytes. -/
def encodeIntegers (width : Nat) (values : List Int) : Except Fault Bytes := do
  let words ← collect (encodeInteger width) values
  return words.flatten

/-- The digest of a row of integers, each as wide as the field's elements. -/
def Hasher.hashIntegers (hasher : Hasher) (field : PrimeField) (values : List Int) :
    Except Fault Bytes := do
  let row ← encodeIntegers field.byteLength values
  return hasher.digest row

/-- The digest of a row of elements. -/
def Hasher.hashRow (hasher : Hasher) {field : PrimeField} (row : List (Element field)) :
    Except Fault Bytes :=
  hasher.hashIntegers field (row.map fun element => Int.ofNat element.value)

end Proximity
