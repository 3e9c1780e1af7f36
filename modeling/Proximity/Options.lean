import Proximity.Field.Catalogue

/-! The parameters of a commitment, checked once, and the number of rounds they lead to. -/

namespace Proximity

/-- Parameters shared by all commitments of one prover. -/
structure Options (field : PrimeField) where
  /-- How many evaluations become one in a round. -/
  foldingFactor : Nat
  /-- The longest vector that is sent as it is. -/
  maxRemainderSize : Nat
  /-- How many times longer the committed domain is than the degree bound. -/
  blowupFactor : Nat
  /-- The shift of the first domain. -/
  domainOffset : Element field
  isPowerOfTwo_foldingFactor : foldingFactor.isPowerOfTwo
  two_le_foldingFactor : 2 ≤ foldingFactor
  isPowerOfTwo_maxRemainderSize : maxRemainderSize.isPowerOfTwo
  foldingFactor_le : foldingFactor ≤ maxRemainderSize
  isPowerOfTwo_blowupFactor : blowupFactor.isPowerOfTwo
  domainOffset_ne_zero : domainOffset ≠ 0

/-- Parameters as they are asked for, with those that are taken unless others are named. -/
structure Settings where
  foldingFactor : Int := 4
  maxRemainderSize : Int := 256
  blowupFactor : Int := 8
  /-- Without an offset the domain is shifted by the primitive element. -/
  domainOffset : Option Int := none

namespace Settings

/-- The first domain's shift. -/
def offset (settings : Settings) (field : PrimeField) : Except Fault (Element field) :=
  match settings.domainOffset with
  | none => .ok field.primitiveElement
  | some value => Element.ofInt? value

/-- The parameters asked for, or the first of them that is out of range. -/
def options (settings : Settings) (field : PrimeField) : Except Fault (Options field) := do
  let ⟨foldingFactor, maxRemainderSize, blowupFactor, _⟩ := settings
  if isFactor : foldingFactor.toNat.isPowerOfTwo ∧ 2 ≤ foldingFactor.toNat then
    if isLimit : maxRemainderSize.toNat.isPowerOfTwo then
      if ordered : foldingFactor.toNat ≤ maxRemainderSize.toNat then
        if isBlowup : blowupFactor.toNat.isPowerOfTwo then
          let domainOffset ← settings.offset field
          if shifts : domainOffset ≠ 0 then
            return {
              foldingFactor := foldingFactor.toNat
              maxRemainderSize := maxRemainderSize.toNat
              blowupFactor := blowupFactor.toNat
              domainOffset := domainOffset
              isPowerOfTwo_foldingFactor := isFactor.1
              two_le_foldingFactor := isFactor.2
              isPowerOfTwo_maxRemainderSize := isLimit
              foldingFactor_le := ordered
              isPowerOfTwo_blowupFactor := isBlowup
              domainOffset_ne_zero := shifts }
          else throw .zeroOffset
        else throw (.blowupFactor blowupFactor)
      else throw (.remainderBelowFactor maxRemainderSize foldingFactor)
    else throw (.remainderLimit maxRemainderSize)
  else throw (.foldingFactor foldingFactor)

end Settings

namespace Options

variable {field : PrimeField}

/-- How often a size is divided by the factor until it is within the limit. -/
def foldsWithin (limit factor : Nat) (narrows : 2 ≤ factor) (size : Nat) : Nat :=
  if exceeds : limit < size then
    foldsWithin limit factor narrows (size / factor) + 1
  else 0
termination_by size
decreasing_by exact Nat.div_lt_self (Nat.zero_lt_of_lt exceeds) narrows

/-- How many rounds a domain goes through before it fits into the remainder. -/
def numLayers (options : Options field) (domainSize : Int) : Nat :=
  foldsWithin options.maxRemainderSize options.foldingFactor options.two_le_foldingFactor
    domainSize.toNat

/-- The length of the remainder that a domain leads to. -/
def remainderSize (options : Options field) (domainSize : Int) : Int :=
  domainSize.fdiv (Nat.pow options.foldingFactor (options.numLayers domainSize))

end Options

end Proximity
