import Proximity.Hash.Words

/-! The hash function SHA3-256: 136-byte blocks absorbed into a permuted state of twenty-five lanes. -/

namespace Proximity.Sha3

/-- Five rows of five lanes; the lane in column x of row y stands at x + 5 y. -/
abbrev State := Vector UInt64 25

/-- How far each lane is turned between the columns and the rows of a round. -/
def offsets : Vector UInt64 25 := #v[
  0, 1, 62, 28, 27,
  36, 44, 6, 55, 20,
  3, 10, 43, 25, 39,
  41, 45, 15, 21, 8,
  18, 2, 61, 56, 14]

/-- The constant that sets each of the twenty-four rounds apart. -/
def roundConstants : List UInt64 := [
  0x0000000000000001, 0x0000000000008082, 0x800000000000808a, 0x8000000080008000,
  0x000000000000808b, 0x0000000080000001, 0x8000000080008081, 0x8000000000008009,
  0x000000000000008a, 0x0000000000000088, 0x0000000080008009, 0x000000008000000a,
  0x000000008000808b, 0x800000000000008b, 0x8000000000008089, 0x8000000000008003,
  0x8000000000008002, 0x8000000000000080, 0x000000000000800a, 0x800000008000000a,
  0x8000000080008081, 0x8000000000008080, 0x0000000080000001, 0x8000000080008008]

/-- A lane turned to the left. -/
def rotate (lane amount : UInt64) : UInt64 :=
  lane <<< amount ||| lane >>> (64 - amount)

/-- The place of a column and a row, both taken around the edge. -/
def place (x y : Nat) : Fin 25 :=
  Fin.ofNat 25 (x % 5 + 5 * (y % 5))

/-- The lanes of one column together. -/
def parity (state : State) (x : Nat) : UInt64 :=
  state.get (place x 0) ^^^ state.get (place x 1) ^^^ state.get (place x 2)
    ^^^ state.get (place x 3) ^^^ state.get (place x 4)

/-- Every lane takes in the two columns beside its own. -/
def mixColumns (state : State) : State :=
  let columns : Vector UInt64 5 := Vector.ofFn fun x => parity state x
  Vector.ofFn fun i =>
    let x := Fin.ofNat 5 i.val
    state.get i ^^^ columns.get (x + 4) ^^^ rotate (columns.get (x + 1)) 1

/-- Every lane is turned by its own offset and moved to its new place. -/
def moveLanes (state : State) : State :=
  Vector.ofFn fun i =>
    let source := place (i.val + 3 * (i.val / 5)) i.val
    rotate (state.get source) (offsets.get source)

/-- Every lane is combined with the next two of its row. -/
def mixRows (state : State) : State :=
  Vector.ofFn fun i =>
    let y := i.val / 5
    state.get i ^^^ (~~~state.get (place (i.val + 1) y) &&& state.get (place (i.val + 2) y))

/-- One round. -/
def round (state : State) (constant : UInt64) : State :=
  let mixed := mixRows (moveLanes (mixColumns state))
  Words.put mixed 0 (mixed.get 0 ^^^ constant)

/-- The permutation of the state. -/
def permute (state : State) : State :=
  roundConstants.foldl round state

/-- How many bytes one block holds. -/
def rate : Nat := 136

/-- A block taken into the state, which is then permuted. -/
def absorb (state : State) (block : Bytes) : State :=
  permute (Vector.ofFn fun i => state.get i ^^^ UInt64.ofNat (Words.spelled block 8 i.val))

/-- The message, the two bits of its kind, and a one at each end of the zeros that fill the block. -/
def pad (message : Bytes) : Bytes :=
  let missing := rate - message.length % rate
  if missing = 1 then message ++ [0x86]
  else message ++ 0x06 :: List.replicate (missing - 2) 0 ++ [0x80]

/-- One of the first thirty-two bytes of the state, the lowest byte of each lane first. -/
def byteAt (state : State) (byte : Fin 32) : UInt8 :=
  (state.get (Fin.ofNat 25 (byte.val / 8)) >>> UInt64.ofNat (8 * (byte.val % 8))).toUInt8

/-- The digest of a message. -/
def digest (message : Bytes) : Vector UInt8 32 :=
  let padded := pad message
  let blocks := Bytes.split rate (padded.length / rate) padded
  Vector.ofFn (byteAt (blocks.foldl absorb (Vector.replicate 25 0)))

end Proximity.Sha3
