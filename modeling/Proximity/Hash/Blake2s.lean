import Proximity.Hash.Sha256

/-! The hash function BLAKE2s with 32-byte digests: 64-byte blocks folded into eight 32-bit words. -/

namespace Proximity.Blake2s

/-- The pairs of words of a block that each of the ten rounds reads, in the order of its steps. -/
def orders : List (Vector (Fin 16 × Fin 16) 8) := [
  #v[(0, 1), (2, 3), (4, 5), (6, 7), (8, 9), (10, 11), (12, 13), (14, 15)],
  #v[(14, 10), (4, 8), (9, 15), (13, 6), (1, 12), (0, 2), (11, 7), (5, 3)],
  #v[(11, 8), (12, 0), (5, 2), (15, 13), (10, 14), (3, 6), (7, 1), (9, 4)],
  #v[(7, 9), (3, 1), (13, 12), (11, 14), (2, 6), (5, 10), (4, 0), (15, 8)],
  #v[(9, 0), (5, 7), (2, 4), (10, 15), (14, 1), (11, 12), (6, 8), (3, 13)],
  #v[(2, 12), (6, 10), (0, 11), (8, 3), (4, 13), (7, 5), (15, 14), (1, 9)],
  #v[(12, 5), (1, 15), (14, 13), (4, 10), (0, 7), (6, 3), (9, 2), (8, 11)],
  #v[(13, 11), (7, 14), (12, 1), (3, 9), (5, 0), (15, 4), (8, 6), (2, 10)],
  #v[(6, 15), (14, 9), (11, 3), (0, 8), (12, 2), (13, 7), (1, 4), (10, 5)],
  #v[(10, 2), (8, 4), (7, 6), (1, 5), (15, 11), (9, 14), (3, 12), (13, 0)]]

/-- The words mixed by each of the eight steps of a round: four columns, then four diagonals. -/
def steps : Vector (Fin 16 × Fin 16 × Fin 16 × Fin 16) 8 := #v[
  (0, 4, 8, 12), (1, 5, 9, 13), (2, 6, 10, 14), (3, 7, 11, 15),
  (0, 5, 10, 15), (1, 6, 11, 12), (2, 7, 8, 13), (3, 4, 9, 14)]

/-- Four words mixed with each other and with two words of the block. -/
def mix (v : Vector UInt32 16) (a b c d : Fin 16) (x y : UInt32) : Vector UInt32 16 :=
  let v := Words.put v a (v.get a + v.get b + x)
  let v := Words.put v d (Words.turnRight (v.get d ^^^ v.get a) 16)
  let v := Words.put v c (v.get c + v.get d)
  let v := Words.put v b (Words.turnRight (v.get b ^^^ v.get c) 12)
  let v := Words.put v a (v.get a + v.get b + y)
  let v := Words.put v d (Words.turnRight (v.get d ^^^ v.get a) 8)
  let v := Words.put v c (v.get c + v.get d)
  Words.put v b (Words.turnRight (v.get b ^^^ v.get c) 7)

/-- One round over the words of a block, read in the round's order. -/
def round (words : Vector UInt32 16) (v : Vector UInt32 16) (order : Vector (Fin 16 × Fin 16) 8) :
    Vector UInt32 16 :=
  (List.finRange 8).foldl
    (fun v step =>
      let (a, b, c, d) := steps.get step
      let (x, y) := order.get step
      mix v a b c d (words.get x) (words.get y))
    v

/-- The sixteen words of a block, each with its lowest byte first. -/
def blockWords (block : Bytes) : Vector UInt32 16 :=
  Vector.ofFn fun i => UInt32.ofNat (Words.spelled block 4 i.val)

/-- A state in front of the eight words that every block starts with. -/
def extend (state : Vector UInt32 8) : Vector UInt32 16 :=
  state ++ Sha256.initial

/-- The two halves of an extended state folded onto each other. -/
def halves (v : Vector UInt32 16) (i : Fin 8) : UInt32 :=
  v.get (i.castAdd 8) ^^^ v.get (i.addNat 8)

/-- A block folded into the state, together with the number of bytes taken so far. -/
def compress (state : Vector UInt32 8) (block : Bytes) (taken : Nat) (last : Bool) :
    Vector UInt32 8 :=
  let v := extend state
  let v := Words.put v 12 (v.get 12 ^^^ UInt32.ofNat taken)
  let v := Words.put v 13 (v.get 13 ^^^ UInt32.ofNat (taken >>> 32))
  let v := if last then Words.put v 14 (~~~v.get 14) else v
  let mixed := orders.foldl (round (blockWords block)) v
  Vector.ofFn fun i => state.get i ^^^ halves mixed i

/-- The blocks of a message folded into the state; the last one closes it. -/
def absorb (length : Nat) : (taken : Nat) → (state : Vector UInt32 8) → List Bytes → Vector UInt32 8
  | _, state, [] => state
  | _, state, [block] => compress state block length true
  | taken, state, block :: rest =>
    absorb length (taken + 64) (compress state block (taken + 64) false) rest

/-- The state before the first block: no key, digests of 32 bytes, no tree. -/
def initial : Vector UInt32 8 :=
  Words.put Sha256.initial 0 (Sha256.initial.get 0 ^^^ 0x01010020)

/-- How many blocks a message fills; an empty one still fills one. -/
def blockCount (length : Nat) : Nat :=
  if length = 0 then 1 else (length + 63) / 64

/-- The digest of a message. -/
def digest (message : Bytes) : Vector UInt8 32 :=
  Words.lowFirst
    (absorb message.length 0 initial (Bytes.split 64 (blockCount message.length) message))

end Proximity.Blake2s
