import Proximity.Hash.Hasher

/-! Binary Merkle trees over a power of two of leaf digests, with every level kept. -/

namespace Proximity

namespace Hasher

/-- The level above: neighbours merged in pairs. -/
def parents (hasher : Hasher) : List Bytes → List Bytes
  | left :: right :: rest => hasher.merge left right :: hasher.parents rest
  | _ => []

/-- A level and the levels above it, as many as the depth says. -/
def levels (hasher : Hasher) : (depth : Nat) → List Bytes → List (List Bytes)
  | 0, level => [level]
  | depth + 1, level => level :: hasher.levels depth (hasher.parents level)

end Hasher

/-- A tree with all of its levels, from the leaves up to the root. -/
structure MerkleTree (hasher : Hasher) where
  depth : Nat
  leaves : List Bytes
  length_leaves : leaves.length = Nat.pow 2 depth
  levels : List (List Bytes)
  levels_eq : levels = hasher.levels depth leaves

/-- The other child of a node's parent. -/
def sibling (index : Nat) : Nat :=
  if index % 2 = 0 then index + 1 else index - 1

namespace MerkleTree

variable {hasher : Hasher}

/-- A power of two is two to its binary logarithm. -/
theorem eq_two_pow_log2 {count : Nat} (power : count.isPowerOfTwo) : count = Nat.pow 2 count.log2 := by
  obtain ⟨exponent, rfl⟩ := power
  exact congrArg (Nat.pow 2) Nat.log2_two_pow.symm

/-- The tree over some leaves, whose number has to be a power of two. -/
def ofLeaves (hasher : Hasher) (leaves : List Bytes) : Except Fault (MerkleTree hasher) :=
  if power : leaves.length.isPowerOfTwo then
    .ok {
      depth := leaves.length.log2
      leaves := leaves
      length_leaves := eq_two_pow_log2 power
      levels := hasher.levels leaves.length.log2 leaves
      levels_eq := rfl }
  else .error (.leafCount leaves.length)

/-- How many leaves a tree has. -/
def leafCount (tree : MerkleTree hasher) : Nat :=
  tree.leaves.length

/-- The digest at a level, counted from the leaves, and an index; places outside hold no bytes. -/
def node (tree : MerkleTree hasher) (level index : Nat) : Bytes :=
  (tree.levels.getD level []).getD index []

/-- The digest that commits to all leaves. -/
def root (tree : MerkleTree hasher) : Bytes :=
  tree.node tree.depth 0

/-- An index that names a leaf. -/
def leafIndex (tree : MerkleTree hasher) (index : Int) : Except Fault Nat :=
  match index with
  | .ofNat place =>
    if place < tree.leafCount then .ok place else .error (.leafOutOfRange place tree.leafCount)
  | .negSucc below => .error (.leafOutOfRange (.negSucc below) tree.leafCount)

/-- One leaf. -/
def leaf (tree : MerkleTree hasher) (index : Int) : Except Fault Bytes := do
  let place ← tree.leafIndex index
  return tree.node 0 place

end MerkleTree

end Proximity
