import Mathlib
import Proximity.Merkle.Tree

/-! The levels of a tree: each holds the merges of the one below, down to the leaves. -/

namespace Proximity

namespace Hasher

variable (hasher : Hasher)

/-- A level has half as many nodes as the one below it. -/
@[simp] theorem length_parents : ∀ level : List Bytes,
    (hasher.parents level).length = level.length / 2
  | [] => by simp [parents]
  | [_] => by simp [parents]
  | _ :: _ :: rest => by
    -- Two neighbours make one parent.
    simp only [parents, List.length_cons, length_parents rest]
    omega

/-- A parent merges the nodes at twice its index and right behind. -/
theorem getD_parents : ∀ (level : List Bytes) {index : Nat}, index < level.length / 2 →
    (hasher.parents level).getD index []
      = hasher.merge (level.getD (2 * index) []) (level.getD (2 * index + 1) [])
  | [], _, inside => by simp at inside
  | [_], _, inside => by simp at inside
  | _ :: _ :: _, 0, _ => rfl
  | _ :: _ :: rest, index + 1, inside => by
    -- The index shrinks by one for every two nodes.
    have shrunk : index < rest.length / 2 := by
      simp only [List.length_cons] at inside
      omega
    simp only [parents, List.getD_cons_succ, getD_parents rest shrunk, Nat.mul_succ]

/-- The lowest level is the one that the others are built on. -/
@[simp] theorem getD_levels_zero (depth : Nat) (level : List Bytes) :
    (hasher.levels depth level).getD 0 [] = level := by
  cases depth <;> simp [levels]

/-- Every other level holds the parents of the one below it. -/
theorem getD_levels_succ {depth above : Nat} (inside : above < depth) (level : List Bytes) :
    (hasher.levels depth level).getD (above + 1) []
      = hasher.parents ((hasher.levels depth level).getD above []) := by
  induction depth generalizing above level with
  | zero =>
    -- A single level has none above it.
    omega
  | succ depth ih =>
    cases above with
    | zero =>
      -- The second level is the first of those built on the parents.
      exact getD_levels_zero hasher depth (hasher.parents level)
    | succ above => exact ih (Nat.lt_of_succ_lt_succ inside) (hasher.parents level)

/-- The levels halve from the lowest one upwards. -/
theorem length_getD_levels {depth above : Nat} (inside : above ≤ depth) (level : List Bytes) :
    ((hasher.levels depth level).getD above []).length = level.length / 2 ^ above := by
  induction above with
  | zero => rw [getD_levels_zero, pow_zero, Nat.div_one]
  | succ above ih =>
    -- One more level halves once more.
    rw [getD_levels_succ hasher inside, length_parents, ih (Nat.le_of_succ_le inside),
      Nat.div_div_eq_div_mul, ← pow_succ]

end Hasher

namespace MerkleTree

/-- Leaves whose number is no power of two are refused for it. -/
theorem ofLeaves_eq_error {hasher : Hasher} {leaves : List Bytes} (refused : ¬leaves.length.isPowerOfTwo) :
    ofLeaves hasher leaves = .error (.leafCount leaves.length) :=
  dif_neg refused

/-- A power of two of leaves has a tree of that height over them. -/
theorem exists_ofLeaves (hasher : Hasher) {depth : Nat} {leaves : List Bytes}
    (count : leaves.length = 2 ^ depth) :
    ∃ tree, ofLeaves hasher leaves = .ok tree ∧ tree.depth = depth ∧ tree.leaves = leaves := by
  -- The tree is as high as the logarithm of the number of leaves says.
  have power : leaves.length.isPowerOfTwo := ⟨depth, count⟩
  refine ⟨_, dif_pos power, ?_, rfl⟩
  show leaves.length.log2 = depth
  rw [count, Nat.log2_two_pow]

variable {hasher : Hasher} (tree : MerkleTree hasher)

/-- A tree keeps the leaves it was built over. -/
theorem leaves_of_ofLeaves {leaves : List Bytes} {tree : MerkleTree hasher}
    (built : ofLeaves hasher leaves = .ok tree) : tree.leaves = leaves := by
  -- Only a number of leaves that fits a tree goes through.
  unfold ofLeaves at built
  split at built
  · rw [← Except.ok.inj built]
  · simp at built

/-- A tree of some depth has that power of two of leaves. -/
theorem leafCount_eq : tree.leafCount = 2 ^ tree.depth :=
  tree.length_leaves

/-- A level has twice as many nodes as the one above it, and the highest has one. -/
theorem length_level {level : Nat} (inside : level ≤ tree.depth) :
    (tree.levels.getD level []).length = 2 ^ (tree.depth - level) := by
  -- The number of leaves is a power of two, which halving brings down to one.
  rw [tree.levels_eq, hasher.length_getD_levels inside,
    show tree.leaves.length = 2 ^ tree.depth from tree.length_leaves, Nat.pow_div inside (by omega)]

/-- The lowest nodes are the leaves. -/
theorem node_zero (index : Nat) : tree.node 0 index = tree.leaves.getD index [] := by
  rw [node, tree.levels_eq, Hasher.getD_levels_zero]

/-- Every other node merges its two children. -/
theorem node_succ {level index : Nat} (inside : level < tree.depth)
    (below : index < 2 ^ (tree.depth - (level + 1))) :
    tree.node (level + 1) index
      = hasher.merge (tree.node level (2 * index)) (tree.node level (2 * index + 1)) := by
  -- The level below is long enough to have both children.
  have half : index < (tree.levels.getD level []).length / 2 := by
    rw [tree.length_level inside.le, show tree.depth - level = tree.depth - (level + 1) + 1 by omega,
      pow_succ]
    omega
  have above := tree.levels_eq ▸ hasher.getD_levels_succ inside tree.leaves
  rw [node, above, hasher.getD_parents _ half]
  rfl

/-- Every node has the digest's size if the leaves have. -/
theorem length_node (leaves : ∀ leaf ∈ tree.leaves, leaf.length = hasher.digestSize)
    {level index : Nat} (inside : level ≤ tree.depth) (below : index < 2 ^ (tree.depth - level)) :
    (tree.node level index).length = hasher.digestSize := by
  cases level with
  | zero =>
    -- The lowest nodes are leaves, whose size is given.
    rw [node_zero]
    have listed : index < tree.leaves.length := by
      rw [tree.length_leaves]
      exact below
    rw [List.getD_eq_getElem _ _ listed]
    exact leaves _ (List.getElem_mem listed)
  | succ level =>
    -- Every other node is a digest, whatever it merges.
    rw [tree.node_succ inside below]
    exact hasher.length_digest _

/-- A leaf that exists is the node at its index. -/
theorem leafIndex_eq_ok_iff {index : Int} {place : Nat} :
    tree.leafIndex index = .ok place ↔ index = place ∧ place < 2 ^ tree.depth := by
  -- Only an index that is not negative can name a leaf.
  rw [← tree.leafCount_eq]
  cases index with
  | ofNat named =>
    simp only [leafIndex, Int.ofNat_eq_natCast, Int.natCast_inj]
    split
    · rename_i inside
      simp only [Except.ok.injEq]
      exact ⟨fun same => ⟨same, same ▸ inside⟩, fun same => same.1⟩
    · rename_i outside
      simp only [reduceCtorEq, false_iff]
      intro found
      obtain ⟨rfl, inside⟩ := found
      exact outside inside
  | negSucc below =>
    -- A negative index is refused, and equals no place.
    simp only [leafIndex, reduceCtorEq, false_iff]
    intro found
    obtain ⟨same, _⟩ := found
    omega

/-- An index inside the tree is its own place. -/
theorem leafIndex_eq_ok {index : Int} (natural : 0 ≤ index) (below : index < 2 ^ tree.depth) :
    tree.leafIndex index = .ok index.toNat :=
  tree.leafIndex_eq_ok_iff.mpr
    ⟨(Int.toNat_of_nonneg natural).symm, (Int.toNat_lt natural).mpr (by exact_mod_cast below)⟩

/-- An index inside the tree names the node at its place. -/
theorem leaf_eq_ok {index : Int} (natural : 0 ≤ index) (below : index < 2 ^ tree.depth) :
    tree.leaf index = .ok (tree.node 0 index.toNat) := by
  rw [leaf, tree.leafIndex_eq_ok natural below]
  rfl

end MerkleTree

end Proximity
