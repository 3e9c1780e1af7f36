import Proximity.Ascending
import Proximity.Collect
import Proximity.Merkle.Tree

/-! One authentication proof for several leaves, which lists a digest only if it cannot be recomputed. -/

namespace Proximity

/-- The siblings that a verifier needs at each level, from the leaves upwards. -/
structure BatchProof where
  depth : Int
  nodes : List (List Bytes)
deriving DecidableEq, Repr

/-- How many digests a proof carries. -/
def BatchProof.numDigests (proof : BatchProof) : Nat :=
  proof.nodes.foldr (fun level others => level.length + others) 0

/-- The parents of some nodes, ascending and without repetition. -/
def parentIndexes (indexes : List Nat) : List Nat :=
  ascending (indexes.map (· / 2))

/-- The siblings that are not among the nodes themselves. -/
def absentSiblings (indexes : List Nat) : List Nat :=
  (indexes.filter fun index => !indexes.contains (sibling index)).map sibling

namespace MerkleTree

variable {hasher : Hasher}

/-- The absent siblings' digests from a level upwards, one list for each level that remains. -/
def absentAbove (tree : MerkleTree hasher) :
    (remaining level : Nat) → (indexes : List Nat) → List (List Bytes)
  | 0, _, _ => []
  | remaining + 1, level, indexes =>
    (absentSiblings indexes).map (tree.node level)
      :: tree.absentAbove remaining (level + 1) (parentIndexes indexes)

/-- One proof for all leaves named, which have to be distinct leaves of the tree. -/
def proveBatch (tree : MerkleTree hasher) (indexes : List Int) : Except Fault BatchProof :=
  if indexes = [] then .error .noLeafIndex
  else
    let sorted := ascending indexes
    if sorted.length ≠ indexes.length then .error .repeatedLeafIndex
    else do
      let places ← collect tree.leafIndex sorted
      return ⟨tree.depth, tree.absentAbove tree.depth 0 places⟩

end MerkleTree

end Proximity
