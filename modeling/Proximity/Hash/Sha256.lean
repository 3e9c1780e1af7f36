import Proximity.Hash.Words

/-! The hash function SHA-256: 64-byte blocks folded into eight 32-bit words. -/

namespace Proximity.Sha256

/-- Fractional parts of the square roots of the first eight primes. -/
def initial : Vector UInt32 8 := #v[
  0x6a09e667, 0xbb67ae85, 0x3c6ef372, 0xa54ff53a, 0x510e527f, 0x9b05688c, 0x1f83d9ab, 0x5be0cd19]

/-- Fractional parts of the cube roots of the first sixty-four primes. -/
def constants : List UInt32 := [
  0x428a2f98, 0x71374491, 0xb5c0fbcf, 0xe9b5dba5, 0x3956c25b, 0x59f111f1, 0x923f82a4, 0xab1c5ed5,
  0xd807aa98, 0x12835b01, 0x243185be, 0x550c7dc3, 0x72be5d74, 0x80deb1fe, 0x9bdc06a7, 0xc19bf174,
  0xe49b69c1, 0xefbe4786, 0x0fc19dc6, 0x240ca1cc, 0x2de92c6f, 0x4a7484aa, 0x5cb0a9dc, 0x76f988da,
  0x983e5152, 0xa831c66d, 0xb00327c8, 0xbf597fc7, 0xc6e00bf3, 0xd5a79147, 0x06ca6351, 0x14292967,
  0x27b70a85, 0x2e1b2138, 0x4d2c6dfc, 0x53380d13, 0x650a7354, 0x766a0abb, 0x81c2c92e, 0x92722c85,
  0xa2bfe8a1, 0xa81a664b, 0xc24b8b70, 0xc76c51a3, 0xd192e819, 0xd6990624, 0xf40e3585, 0x106aa070,
  0x19a4c116, 0x1e376c08, 0x2748774c, 0x34b0bcb5, 0x391c0cb3, 0x4ed8aa4a, 0x5b9cca4f, 0x682e6ff3,
  0x748f82ee, 0x78a5636f, 0x84c87814, 0x8cc70208, 0x90befffa, 0xa4506ceb, 0xbef9a3f7, 0xc67178f2]

/-- The sixteen words of a block, each with its highest byte first. -/
def blockWords (block : Bytes) : Vector UInt32 16 :=
  Vector.ofFn fun i => UInt32.ofNat (Bytes.toNat ((block.drop (4 * i.val)).take 4).reverse)

/-- The word that follows a window of sixteen in the schedule. -/
def nextWord (window : Vector UInt32 16) : UInt32 :=
  let early := window.get 1
  let late := window.get 14
  window.get 0
    + (Words.turnRight early 7 ^^^ Words.turnRight early 18 ^^^ early >>> 3)
    + window.get 9
    + (Words.turnRight late 17 ^^^ Words.turnRight late 19 ^^^ late >>> 10)

/-- The window one word further on. -/
def slide (window : Vector UInt32 16) : Vector UInt32 16 :=
  let next := nextWord window
  Vector.ofFn fun i => if i = 15 then next else window.get (i + 1)

/-- The first words of the schedule that continues a window. -/
def schedule : (count : Nat) → (window : Vector UInt32 16) → List UInt32
  | 0, _ => []
  | count + 1, window => window.get 0 :: schedule count (slide window)

/-- One round, fed with a word of the schedule and its constant. -/
def round (state : Vector UInt32 8) (input : UInt32 × UInt32) : Vector UInt32 8 :=
  let a := state.get 0
  let b := state.get 1
  let c := state.get 2
  let e := state.get 4
  let f := state.get 5
  let g := state.get 6
  let choice := (e &&& f) ^^^ (~~~e &&& g)
  let majority := (a &&& b) ^^^ (a &&& c) ^^^ (b &&& c)
  let turnedE := Words.turnRight e 6 ^^^ Words.turnRight e 11 ^^^ Words.turnRight e 25
  let turnedA := Words.turnRight a 2 ^^^ Words.turnRight a 13 ^^^ Words.turnRight a 22
  let first := state.get 7 + turnedE + choice + input.1 + input.2
  #v[first + turnedA + majority, a, b, c, state.get 3 + first, e, f, g]

/-- A block folded into the state. -/
def compress (state : Vector UInt32 8) (block : Bytes) : Vector UInt32 8 :=
  let mixed := ((schedule 64 (blockWords block)).zip constants).foldl round state
  Vector.ofFn fun i => state.get i + mixed.get i

/-- The message, a closing one bit, zeros, and the message length in bits over eight bytes. -/
def pad (message : Bytes) : Bytes :=
  let zeros := (119 - message.length % 64) % 64
  message ++ 0x80 :: List.replicate zeros 0 ++ (Bytes.ofNat 8 (8 * message.length)).reverse

/-- The digest of a message. -/
def digest (message : Bytes) : Vector UInt8 32 :=
  let padded := pad message
  Words.highFirst ((Bytes.split 64 (padded.length / 64) padded).foldl compress initial)

end Proximity.Sha256
