import Proximity.Merkle.Tree

/-! Authentication paths: the siblings met on the way from one leaf to the root. -/

namespace Proximity

namespace MerkleTree

variable {hasher : Hasher}

/-- The siblings from a node upwards, one for each level that remains. -/
def siblingsAbove (tree : MerkleTree hasher) : (remaining level index : Nat) → List Bytes
  | 0, _, _ => []
  | remaining + 1, level, index =>
    tree.node level (sibling index) :: tree.siblingsAbove remaining (level + 1) (index / 2)

/-- The path of one leaf, without the leaf itself. -/
def path (tree : MerkleTree hasher) (index : Int) : Except Fault (List Bytes) := do
  let place ← tree.leafIndex index
  return tree.siblingsAbove tree.depth 0 place

end MerkleTree

namespace Hasher

/-- The digest reached from a node by merging the siblings of a path, each on its own side. -/
def climb (hasher : Hasher) : (index : Nat) → (digest : Bytes) → (path : List Bytes) → Bytes
  | _, digest, [] => digest
  | index, digest, other :: path =>
    -- A node with an odd index is the right child.
    hasher.climb (index / 2)
      (if index % 2 = 1 then hasher.merge other digest else hasher.merge digest other) path

/-- Whether a path leads from a leaf at an index to a root; the path's length is the tree's depth. -/
def verifyPath (hasher : Hasher) (root : Bytes) (index : Int) (leaf : Bytes) (path : List Bytes) :
    Bool :=
  if index < 0 ∨ (Nat.pow 2 path.length : Int) ≤ index then false
  else hasher.climb index.toNat leaf path == root

end Hasher

end Proximity
