import Mathlib
import Proximity.Field.Basic
import Proximity.Proofs.Merkle.Levels

/-! Trees are built from the leaves up; taken apart from the root down, each node is the hash of the block
of leaves below it. -/

namespace Proximity

namespace Hasher

variable (hasher : Hasher)

/-- The hash of a block of leaves, taken apart from above: one leaf is its own, and that of a longer block
merges those of its two halves. -/
def blockHash (block : List Bytes) : Bytes :=
  if 1 < block.length then
    hasher.merge (blockHash (block.take (block.length / 2))) (blockHash (block.drop (block.length / 2)))
  else block.headD []
termination_by block.length
decreasing_by all_goals simp only [List.length_take, List.length_drop]; omega

/-- A leaf is its own hash. -/
@[simp] theorem blockHash_singleton (leaf : Bytes) : hasher.blockHash [leaf] = leaf := by
  -- A single leaf is not taken apart.
  rw [blockHash, if_neg (by simp)]
  rfl

/-- A block of an even length is cut in the middle. -/
theorem blockHash_of_length {block : List Bytes} {half : Nat} (some : 0 < half)
    (count : block.length = 2 * half) :
    hasher.blockHash block
      = hasher.merge (hasher.blockHash (block.take half)) (hasher.blockHash (block.drop half)) := by
  -- The middle of the block is where the first half ends.
  have middle : block.length / 2 = half := by omega
  rw [blockHash, if_pos (by omega), middle]

/-- A level and the levels above it, built for as long as there are nodes left to merge. -/
def levelsToRoot (level : List Bytes) : List (List Bytes) :=
  if 1 < level.length then level :: levelsToRoot (hasher.parents level) else [level]
termination_by level.length
decreasing_by rw [length_parents]; omega

/-- Over a power of two of nodes there are as many more levels as the exponent says. -/
theorem levels_eq_levelsToRoot {depth : Nat} {level : List Bytes} (count : level.length = 2 ^ depth) :
    hasher.levels depth level = hasher.levelsToRoot level := by
  induction depth generalizing level with
  | zero =>
    -- The only node of a level is the root.
    rw [levelsToRoot, if_neg (by simp [count]), levels]
  | succ depth ih =>
    -- There are two nodes at least, so one more level is built over half of them.
    rw [pow_succ] at count
    have some := Nat.two_pow_pos depth
    have half : (hasher.parents level).length = 2 ^ depth := by
      rw [length_parents, count, Nat.mul_div_cancel _ Nat.two_pos]
    rw [levelsToRoot, if_pos (by omega), levels, ih half]

/-- There is one level more than the depth says. -/
@[simp] theorem length_levels (depth : Nat) (level : List Bytes) :
    (hasher.levels depth level).length = depth + 1 := by
  -- Each step of the depth puts one level in front.
  induction depth generalizing level with
  | zero => rfl
  | succ depth ih => rw [levels, List.length_cons, ih]

end Hasher

/-- The leaves below the node of a level and an index, as many as a tree of the level's height has. -/
def leavesUnder (leaves : List Bytes) (level index : Nat) : List Bytes :=
  leaves.extract (index * 2 ^ level) ((index + 1) * 2 ^ level)

section Blocks

variable (leaves : List Bytes) (level index : Nat)

/-- From the first leaf below a node on, the next ones are below it, too. -/
theorem leavesUnder_eq : leavesUnder leaves level index
    = (leaves.drop (index * 2 ^ level)).take (2 ^ level) := by
  -- A node's block starts behind those of the nodes before it.
  rw [leavesUnder, List.extract_eq_take_drop, Nat.succ_mul, Nat.add_sub_cancel_left]

/-- Below a node of the lowest level there is one leaf. -/
theorem leavesUnder_zero {index : Nat} (inside : index < leaves.length) :
    leavesUnder leaves 0 index = [leaves.getD index []] := by
  -- The block starts at the leaf itself and ends behind it.
  rw [leavesUnder_eq, pow_zero, Nat.mul_one, List.drop_eq_getElem_cons inside,
    List.getD_eq_getElem _ _ inside]
  rfl

/-- A node at an index inside its level has a whole block of leaves below it. -/
theorem length_leavesUnder {depth : Nat} (count : leaves.length = 2 ^ depth) {level index : Nat}
    (inside : level ≤ depth) (below : index < 2 ^ (depth - level)) :
    (leavesUnder leaves level index).length = 2 ^ level := by
  -- The blocks of a level fill the leaves.
  have whole : (index + 1) * 2 ^ level ≤ leaves.length := by
    calc
      (index + 1) * 2 ^ level ≤ 2 ^ (depth - level) * 2 ^ level := Nat.mul_le_mul_right _ below
      _ = leaves.length := by rw [← pow_add, Nat.sub_add_cancel inside, count]
  rw [Nat.succ_mul] at whole
  rw [leavesUnder_eq, List.length_take, List.length_drop]
  exact min_eq_left (Nat.le_sub_of_add_le' whole)

/-- The left half of the leaves below a node are those below its left child. -/
theorem take_leavesUnder : (leavesUnder leaves (level + 1) index).take (2 ^ level)
    = leavesUnder leaves level (2 * index) := by
  -- The block starts where that of the left child does, and is twice as long.
  have start : index * 2 ^ (level + 1) = 2 * index * 2 ^ level := by ring
  rw [leavesUnder_eq, leavesUnder_eq, List.take_take, start,
    min_eq_left (Nat.pow_le_pow_right Nat.two_pos (Nat.le_succ level))]

/-- The right half of the leaves below a node are those below its right child. -/
theorem drop_leavesUnder : (leavesUnder leaves (level + 1) index).drop (2 ^ level)
    = leavesUnder leaves level (2 * index + 1) := by
  have start : index * 2 ^ (level + 1) + 2 ^ level = (2 * index + 1) * 2 ^ level := by ring
  -- The right child's block starts in the middle and is what is left of this one.
  have rest : 2 ^ (level + 1) - 2 ^ level = 2 ^ level := by
    rw [pow_succ]
    omega
  rw [leavesUnder_eq, leavesUnder_eq, List.drop_take, List.drop_drop, start, rest]

end Blocks

namespace MerkleTree

variable {hasher : Hasher} (tree : MerkleTree hasher)

/-- The lowest level is that of the leaves, and the highest that of the root. -/
@[simp] theorem length_levels : tree.levels.length = tree.depth + 1 := by
  rw [tree.levels_eq, Hasher.length_levels]

/-- Every node is the hash of the block of leaves below it. -/
theorem node_eq_blockHash {level index : Nat} (inside : level ≤ tree.depth)
    (below : index < 2 ^ (tree.depth - level)) :
    tree.node level index = hasher.blockHash (leavesUnder tree.leaves level index) := by
  -- A node's children are at other indexes of the level below, so the index stays quantified over.
  induction level generalizing index with
  | zero =>
    -- A node of the lowest level is a leaf.
    have listed : index < tree.leaves.length := by rwa [tree.length_leaves]
    rw [tree.node_zero, leavesUnder_zero _ listed, Hasher.blockHash_singleton]
  | succ level ih =>
    -- Both children are inside the level below.
    have double : 2 ^ (tree.depth - level) = 2 * 2 ^ (tree.depth - (level + 1)) := by
      rw [← pow_succ', show tree.depth - (level + 1) + 1 = tree.depth - level by omega]
    have count := length_leavesUnder tree.leaves tree.length_leaves inside below
    rw [pow_succ'] at count
    rw [tree.node_succ inside below, ih (Nat.le_of_succ_le inside) (by omega),
      ih (Nat.le_of_succ_le inside) (by omega), hasher.blockHash_of_length (Nat.two_pow_pos level) count,
      take_leavesUnder, drop_leavesUnder]

/-- The root is the hash of all leaves. -/
theorem root_eq_blockHash : tree.root = hasher.blockHash tree.leaves := by
  -- The block of the highest node starts at the first leaf and leaves none out.
  have whole : leavesUnder tree.leaves tree.depth 0 = tree.leaves := by
    rw [leavesUnder_eq, Nat.zero_mul, List.drop_zero]
    exact List.take_of_length_le tree.length_leaves.le
  rw [root, tree.node_eq_blockHash le_rfl (Nat.two_pow_pos _), whole]

/-- There is a tree over some leaves exactly if their number is a power of two. -/
theorem exists_ofLeaves_iff (hasher : Hasher) (leaves : List Bytes) :
    (∃ tree, ofLeaves hasher leaves = .ok tree) ↔ leaves.length.isPowerOfTwo := by
  constructor
  · -- Any other number is refused.
    rintro ⟨tree, built⟩
    by_contra refused
    simp [ofLeaves_eq_error refused] at built
  · -- A power of two is what the levels are halved by.
    rintro ⟨depth, count⟩
    obtain ⟨tree, built, _⟩ := exists_ofLeaves hasher count
    exact ⟨tree, built⟩

/-- A tree is built over some leaves exactly if their number is a power of two, which the code tells from its
binary digits; otherwise it is refused for that number. It is as high as the number's logarithm, which is one
less than the number has digits, and its levels are those that merging neighbours leads to until one node is
left. They halve from the leaves up to the root, and every node is the hash of the block of leaves below it,
taken apart from above; so the root is that of all leaves. -/
theorem tree_hashes_blocks (hasher : Hasher) (leaves : List Bytes) :
    ((∃ tree, ofLeaves hasher leaves = .ok tree) ↔ leaves.length.isPowerOfTwo) ∧
      ((∃ tree, ofLeaves hasher leaves = .ok tree) ↔
        leaves.length ≠ 0 ∧ leaves.length &&& (leaves.length - 1) = 0) ∧
      (¬leaves.length.isPowerOfTwo → ofLeaves hasher leaves = .error (.leafCount leaves.length)) ∧
      ∀ tree, ofLeaves hasher leaves = .ok tree →
        leaves.length = 2 ^ tree.depth ∧ bitLength leaves.length = tree.depth + 1 ∧
        tree.levels = hasher.levelsToRoot leaves ∧ tree.levels.length = tree.depth + 1 ∧
        (∀ level ≤ tree.depth, (tree.levels.getD level []).length = 2 ^ (tree.depth - level) ∧
          ∀ index < 2 ^ (tree.depth - level),
            tree.node level index = hasher.blockHash (leavesUnder leaves level index)) ∧
        tree.root = hasher.blockHash leaves := by
  refine ⟨exists_ofLeaves_iff hasher leaves, ?_, ofLeaves_eq_error, fun tree built => ?_⟩
  · -- Taking one away from a power of two, and only then, leaves no binary digit in common.
    rw [exists_ofLeaves_iff, Nat.ne_zero_and_sub_one_eq_zero_iff_isPowerOfTwo]
  · -- All the rest is about the tree's own leaves.
    obtain rfl := leaves_of_ofLeaves built
    have count : tree.leaves.length = 2 ^ tree.depth := tree.length_leaves
    refine ⟨count, ?_, ?_, tree.length_levels, fun level inside => ⟨tree.length_level inside,
      fun index => tree.node_eq_blockHash inside⟩, tree.root_eq_blockHash⟩
    · -- The digits of a power of two are a one and as many zeros as the exponent says.
      rw [count, bitLength, if_neg (Nat.two_pow_pos tree.depth).ne', Nat.log2_two_pow]
    · -- Building level by level ends when one node is left.
      rw [tree.levels_eq, hasher.levels_eq_levelsToRoot count]

/-- The root over four leaves merges the first two and the last two, and three leaves are refused. -/
theorem tree_hashes_blocks_four_and_three :
    let leaves : List Bytes := [[], [1], [2, 2], [3, 3, 3]]
    (∃ tree, ofLeaves Hasher.sha3 leaves = .ok tree ∧ tree.depth = 2 ∧
        tree.node 1 1 = Hasher.sha3.merge [2, 2] [3, 3, 3] ∧
        tree.root = Hasher.sha3.merge (Hasher.sha3.merge [] [1])
          (Hasher.sha3.merge [2, 2] [3, 3, 3])) ∧
      ofLeaves Hasher.sha3 leaves.tail = .error (.leafCount 3) := by
  intro leaves
  obtain ⟨-, digits, -, trees⟩ := tree_hashes_blocks Hasher.sha3 leaves
  obtain ⟨-, -, refused, -⟩ := tree_hashes_blocks Hasher.sha3 leaves.tail
  obtain ⟨tree, built⟩ := digits.mpr (by decide)
  obtain ⟨count, -, -, -, nodes, root⟩ := trees tree built
  -- Four leaves are the second power of two.
  have depth : tree.depth = 2 := Nat.pow_right_injective le_rfl count.symm
  -- A block of two leaves is their merge.
  have pair : ∀ left right : Bytes,
      Hasher.sha3.blockHash [left, right] = Hasher.sha3.merge left right := fun left right => by
    rw [Hasher.blockHash_of_length _ Nat.one_pos rfl]
    simp
  -- Both halves of the leaves are such blocks, and the right one is below the node looked at.
  have low : leaves.take 2 = [[], [1]] := rfl
  have high : leaves.drop 2 = [[2, 2], [3, 3, 3]] := rfl
  have under : leavesUnder leaves 1 1 = [[2, 2], [3, 3, 3]] := rfl
  refine ⟨⟨tree, built, depth, ?_, ?_⟩, refused (by decide)⟩
  · rw [(nodes 1 (by omega)).2 1 (by rw [depth]; decide), under, pair]
  · rw [root, Hasher.blockHash_of_length _ Nat.two_pos rfl, low, high, pair, pair]

end MerkleTree

end Proximity
