import Proximity.Field.Basic
import Proximity.Hash.Hasher
import Proximity.Transcript.Sampling

/-! A Fiat-Shamir channel: roots are absorbed into a hash chain, challenges and positions drawn from it. -/

namespace Proximity

/-- A channel over a field and a hash function. -/
structure Channel (field : PrimeField) (hasher : Hasher) where
  /-- The digest that stands for the seed and for every absorbed root. -/
  state : Bytes
  /-- The last number hashed with the state. -/
  counter : Nat
  /-- How many challenges have been asked for and could be bound. -/
  challenges : Nat
  /-- All absorbed roots in order. -/
  commitments : List Bytes
deriving DecidableEq, Repr

namespace Channel

variable {field : PrimeField} {hasher : Hasher}

/-- What sets the first state apart from all other digests. -/
def seedTag : Bytes :=
  Bytes.ofText "FRI|"

/-- A fresh channel. -/
def ofSeed (field : PrimeField) (hasher : Hasher) (seed : Bytes) : Channel field hasher where
  state := hasher.digest (seedTag ++ seed)
  counter := 0
  challenges := 0
  commitments := []

/-- Absorbs a root; the state moves on and its numbers start again. -/
def commit (channel : Channel field hasher) (root : Bytes) : Channel field hasher :=
  { channel with
    state := hasher.digest (channel.state ++ root)
    counter := 0
    commitments := channel.commitments ++ [root] }

/-- The digest of the state with a number. -/
def squeeze (channel : Channel field hasher) (number : Nat) : Bytes :=
  hasher.digest (channel.state ++ Bytes.ofNat 8 number)

/-- The element that a digest spells, unless the number it spells is no least residue. -/
def candidate? (field : PrimeField) (digest : Bytes) : Option (Element field) :=
  let value := lowBits field.byteLength field.bits digest
  if inside : value < field.order then some ⟨value, inside⟩ else none

/-- Draws a field element; there have to be more roots absorbed than challenges drawn before. -/
def drawChallenge (channel : Channel field hasher) :
    Except Fault (Element field) × Channel field hasher :=
  if channel.commitments.length ≤ channel.challenges then (.error .unboundChallenge, channel)
  else
    let (drawn, counter) := firstAccepted (fun number => candidate? field (channel.squeeze number))
      (remainingNumbers channel.counter) channel.counter
    let next := { channel with counter, challenges := channel.challenges + 1 }
    match drawn with
    | some challenge => (.ok challenge, next)
    | none => (.error .counterExhausted, next)

/-- The position that a digest spells in a domain whose size is a power of two. -/
def position (domainSize : Nat) (digest : Bytes) : Nat :=
  lowBits 8 domainSize.log2 digest

/-- Draws distinct positions of a power-of-two domain, in the order in which they come up. -/
def drawPositions (channel : Channel field hasher) (count domainSize : Int) :
    Except Fault (List Nat) × Channel field hasher :=
  if ¬domainSize.toNat.isPowerOfTwo then (.error (.domainSize domainSize), channel)
  else if count ≤ 0 ∨ domainSize < count then (.error (.queryCount domainSize count), channel)
  else
    let (drawn, counter) :=
      firstDistinct (fun number => position domainSize.toNat (channel.squeeze number))
        (remainingNumbers channel.counter) channel.counter count.toNat []
    let next := { channel with counter }
    match drawn with
    | some positions => (.ok positions, next)
    | none => (.error .counterExhausted, next)

end Channel

end Proximity
