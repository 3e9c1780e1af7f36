import Mathlib
import Proximity.Merkle.Path
import Proximity.Proofs.Merkle.Batch

/-! The path of one leaf is a batched proof for that leaf alone, on both sides: it is issued with the same
digests, and accepted under the same conditions. -/

namespace Proximity

/-- A node by itself lacks its sibling. -/
theorem absentSiblings_singleton (index : Nat) : absentSiblings [index] = [sibling index] := by
  -- No node is its own sibling.
  have different : sibling index ≠ index := by
    unfold sibling
    split <;> omega
  -- It is the only one left after taking away the nodes that are there.
  simp [absentSiblings, different]

namespace MerkleTree

variable {hasher : Hasher} (tree : MerkleTree hasher)

/-- What one node lacks on its way up are the siblings of its path, one on each level. -/
theorem absentAbove_singleton (remaining level index : Nat) :
    tree.absentAbove remaining level [index]
      = (tree.siblingsAbove remaining level index).map fun digest => [digest] := by
  induction remaining generalizing level index with
  | zero => rfl
  | succ remaining ih =>
    -- The parent goes up by itself, too.
    have parent : parentIndexes [index] = [index / 2] := rfl
    rw [absentAbove, siblingsAbove, absentSiblings_singleton, parent, ih]
    rfl

/-- For one leaf a batched proof is refused or issued as its path is, with the same digests. -/
theorem proveBatch_singleton (index : Int) :
    tree.proveBatch [index]
      = (tree.path index).map fun path => ⟨tree.depth, path.map fun digest => [digest]⟩ := by
  -- A single index is in order as it is, and not repeated.
  have sorted : ascending [index] = [index] := rfl
  unfold proveBatch path
  simp only [List.cons_ne_self, if_false, sorted, ne_eq, not_true_eq_false]
  -- The leaf is looked up once in either case.
  cases found : tree.leafIndex index with
  | error fault => simp [collect, found, Except.map]
  | ok place => simp [collect, found, absentAbove_singleton, Except.map]

/-- Every leaf of a tree has a path. -/
theorem exists_path {index : Int} (natural : 0 ≤ index) (below : index < 2 ^ tree.depth) :
    ∃ path, tree.path index = .ok path :=
  ⟨_, by rw [MerkleTree.path, tree.leafIndex_eq_ok natural below]; rfl⟩

end MerkleTree

namespace Hasher

variable (hasher : Hasher)

/-- One known node and its sibling are merged in the order of their places. -/
theorem mergeKnown_singleton (index : Nat) (digest other : Bytes) :
    hasher.mergeKnown [(index, digest)] (parentIndexes ([(index, digest)].map Prod.fst)) [other]
      = some ([(index / 2,
          if index % 2 = 1 then hasher.merge other digest else hasher.merge digest other)], []) := by
  have parent : parentIndexes ([(index, digest)].map Prod.fst) = [index / 2] := rfl
  rw [parent]
  rcases Nat.mod_two_eq_zero_or_one index with even | odd
  · -- An even node is the left child, and the other child is supplied.
    have left : 2 * (index / 2) = index := by omega
    have apart : (index + 1 == index) = false := by simp
    simp [mergeKnown, Known.children?, List.lookup, left, apart, even]
  · -- An odd node is the right child.
    have right : 2 * (index / 2) + 1 = index := by omega
    have apart : (2 * (index / 2) == index) = false := by
      rw [beq_eq_false_iff_ne]
      omega
    simp [mergeKnown, Known.children?, List.lookup, right, apart, odd]

/-- Completing the levels of a path leads to the digest that climbing it leads to. -/
theorem mergeLevels_singleton (index : Nat) (digest : Bytes) (path : List Bytes) :
    hasher.mergeLevels [(index, digest)] (path.map fun other => [other])
      = some [(index / 2 ^ path.length, hasher.climb index digest path)] := by
  induction path generalizing index digest with
  | nil => simp [mergeLevels, climb]
  | cons other path ih =>
    -- The merged node is the only one known on the level above.
    rw [List.map_cons, mergeLevels, mergeKnown_singleton]
    simp only [ih, climb, List.length_cons, Nat.div_div_eq_div_mul, pow_succ']

/-- A path is accepted exactly if it is accepted as a batched proof for its leaf alone. -/
theorem verifyPath_eq_verifyBatch (root : Bytes) (index : Int) (leaf : Bytes) (path : List Bytes) :
    hasher.verifyPath root index leaf path
      = hasher.verifyBatch root [index] [leaf] ⟨path.length, path.map fun digest => [digest]⟩ := by
  have sorted : ascending [index] = [index] := rfl
  unfold verifyPath verifyBatch
  simp only [List.cons_ne_self, List.length_singleton, List.length_map, sorted, ne_eq,
    not_true_eq_false, or_self, if_false, List.any_cons, List.any_nil, Bool.or_false, Bool.or_eq_true,
    decide_eq_true_eq]
  split
  · -- An index outside the tree is refused by both.
    rfl
  · -- Inside the tree the way up ends at the only node of the highest level.
    rename_i inside
    obtain ⟨natural, below⟩ := not_or.mp inside
    have place : index.toNat < 2 ^ path.length :=
      (Int.toNat_lt (not_lt.mp natural)).mpr (by exact_mod_cast not_le.mp below)
    have known : ([index].map Int.toNat).zip [leaf] = [(index.toNat, leaf)] := rfl
    rw [known, mergeLevels_singleton, Nat.div_eq_of_lt place]
    simp [List.lookup]

end Hasher

/-- The path of a leaf and the batched proof for that leaf alone are one proof in two shapes. Whatever the
index, both are refused for the same cause or both are issued, as they are for every leaf; they hold the same
digests, and are accepted for the same roots, indexes and leaves, however they came about. So every leaf of
every tree is accepted with its path. -/
theorem path_is_batch_of_one (hasher : Hasher) :
    (∀ (tree : MerkleTree hasher) (index : Int), tree.proveBatch [index]
      = (tree.path index).map fun path => ⟨tree.depth, path.map fun digest => [digest]⟩) ∧
    (∀ (root : Bytes) (index : Int) (leaf : Bytes) (path : List Bytes),
      hasher.verifyPath root index leaf path
        = hasher.verifyBatch root [index] [leaf] ⟨path.length, path.map fun digest => [digest]⟩) ∧
    ∀ (tree : MerkleTree hasher) (index : Int), 0 ≤ index → index < 2 ^ tree.depth →
      ∃ path leaf, tree.path index = .ok path ∧ tree.leaf index = .ok leaf ∧
        path.length = tree.depth ∧ hasher.verifyPath tree.root index leaf path = true := by
  refine ⟨MerkleTree.proveBatch_singleton, hasher.verifyPath_eq_verifyBatch, ?_⟩
  intro tree index natural below
  obtain ⟨path, found⟩ := tree.exists_path natural below
  have issued := tree.proveBatch_singleton index
  rw [found] at issued
  have accepted := verifyBatch_of_proveBatch issued
  -- A batched proof has a level for each level of the tree, and the path a digest for each of them.
  have length : path.length = tree.depth := by
    have levels := congrArg (fun proof => proof.nodes.length) (tree.proveBatch_eq_ok_iff.mp issued).2
    simpa using levels
  refine ⟨path, _, found, tree.leaf_eq_ok natural below, length, ?_⟩
  rw [hasher.verifyPath_eq_verifyBatch, length]
  exact accepted

/-- The third of four leaves has a path of two digests, and is accepted with it. -/
theorem path_is_batch_of_one_third_of_four :
    (0 : Int) ≤ 2 ∧ (2 : Int) < 2 ^ fourLeaves.depth ∧ ∃ path, fourLeaves.path 2 = .ok path ∧
      fourLeaves.proveBatch [2] = .ok ⟨2, path.map fun digest => [digest]⟩ ∧ path.length = 2 ∧
      Hasher.sha3.verifyPath fourLeaves.root 2 (Hasher.sha3.digest [2]) path = true := by
  have inside : (2 : Int) < 2 ^ fourLeaves.depth := by decide
  obtain ⟨batch, _, accepts⟩ := path_is_batch_of_one Hasher.sha3
  obtain ⟨path, leaf, found, opened, length, accepted⟩ := accepts fourLeaves 2 (by decide) inside
  have known : fourLeaves.leaf 2 = .ok (Hasher.sha3.digest [2]) := rfl
  obtain rfl := Except.ok.inj (known.symm.trans opened)
  exact ⟨by decide, inside, path, found, by rw [batch, found]; rfl, length, accepted⟩

end Proximity
