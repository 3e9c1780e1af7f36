import Proximity.Layer
import Proximity.Merkle.Verify
import Proximity.Positions

/-! Proofs of proximity: openings of all layers but the last, and the last one's evaluations. -/

namespace Proximity

/-- What a prover sends in answer to query positions. -/
structure Proof (field : PrimeField) where
  /-- One opening for each layer but the last, in the order of commitment. -/
  layers : List (LayerOpening field) := []
  /-- The last layer's evaluations in natural order. -/
  remainder : Option (Array (Element field)) := none
  /-- How many evaluations were folded into one. -/
  foldingFactor : Int := 4

namespace LayerOpening

variable {field : PrimeField}

/-- How many bytes an opening takes: its values and its digests. -/
def sizeInBytes (opening : LayerOpening field) (elementSize : Nat) : Nat :=
  opening.values.cells.size * elementSize
    + opening.proof.nodes.flatten.foldr (fun digest others => digest.length + others) 0

end LayerOpening

namespace Proof

variable {field : PrimeField}

/-- How many bytes a proof takes when elements are as wide as those of a given field. -/
def sizeInBytes (proof : Proof field) (encoding : PrimeField) : Except Fault Nat :=
  match proof.remainder with
  | none => .error .noRemainder
  | some remainder =>
    .ok (remainder.size * encoding.byteLength
      + proof.layers.foldr
        (fun opening others => opening.sizeInBytes encoding.byteLength + others) 0)

/-- Whether each opening belongs under the root of its layer, where positions in the first domain are
folded once for each layer. -/
def verifyOpenings (hasher : Hasher) (factor : Int) :
    (layers : List (Bytes × LayerOpening field)) → (positions : List Int) → (domainSize : Int) →
    Except Fault (List Bool)
  | [], _, _ => .ok []
  | (root, opening) :: rest, positions, domainSize => do
    let folded ← foldPositions positions domainSize factor
    let leaves ← hashRows hasher opening.values
    let others ← verifyOpenings hasher factor rest folded (domainSize.fdiv factor)
    return hasher.verifyBatch root folded leaves opening.proof :: others

end Proof

end Proximity
