import Proximity.Field.Basic

/-! How elements are kept: as machine words where their products fit one, and one by one elsewhere. -/

namespace Proximity

/-- The first number too large for a signed word of 64 bits; the addresses of bytes stay below it. -/
def wordLimit : Nat := 1 <<< 63

/-- The kinds of number that a row of integers can be held in. -/
inductive Word where
  /-- Words of 64 bits with a sign. -/
  | signed
  /-- Words of 64 bits without a sign. -/
  | unsigned
  /-- Integers of any size. -/
  | unbounded
deriving DecidableEq, Repr

namespace Word

/-- The kind that an integer by itself is held in. -/
def ofInteger (value : Int) : Word :=
  if -(wordLimit : Int) ≤ value ∧ value < wordLimit then signed
  else if 0 ≤ value ∧ value < 2 * (wordLimit : Int) then unsigned
  else unbounded

/-- Whether an integer can be held in words of a kind. -/
def holds (word : Word) (value : Int) : Bool :=
  match word with
  | signed => ofInteger value = signed
  | unsigned => 0 ≤ value ∧ value < 2 * (wordLimit : Int)
  | unbounded => true

end Word

namespace PrimeField

variable (field : PrimeField)

/-- Whether elements are words, which takes every product of two of them to fit a signed word. -/
def isWordSized : Bool :=
  (field.order - 1) * (field.order - 1) < wordLimit

/-- How many bytes an element takes in an array: one, two or four as a word, and a reference elsewhere. -/
def cellBytes : Nat :=
  if !field.isWordSized then 8
  else if field.order ≤ 0x100 then 1
  else if field.order ≤ 0x10000 then 2
  else 4

/-- No element takes more bytes than a reference does. -/
theorem cellBytes_le : field.cellBytes ≤ 8 := by
  -- The sizes are listed in the definition, a reference as the largest.
  unfold cellBytes
  repeat' split
  all_goals decide

/-- Whether each byte of so many elements has an address. -/
def hasRoom (cells : Nat) : Bool :=
  cells * field.cellBytes < wordLimit

/-- Why lists that fill no rectangular array are refused: words need one, and elements that are kept one
by one make the list itself an element. -/
def raggedFault : Fault :=
  if field.isWordSized then .ragged else .listElement

end PrimeField

end Proximity
