import Mathlib
import Proximity.Proofs.Collect
import Proximity.Proofs.Merkle.Completion

/-! Batched proofs: when one is issued, when one is accepted, and that those issued are accepted. -/

namespace Proximity

/-- Indexes that name leaves, in ascending order, are the ascending places of these leaves. -/
theorem map_toNat_ascending {indexes : List Int} (natural : ∀ index ∈ indexes, 0 ≤ index) :
    (ascending indexes).map Int.toNat = ascending (indexes.map Int.toNat) := by
  refine eq_ascending ?_ fun place => by simp only [List.mem_map, mem_ascending]
  -- Converting keeps the order of integers that are not negative.
  refine List.pairwise_map.mpr ((pairwise_ascending indexes).imp_of_mem ?_)
  intro left right leftListed rightListed before
  have leftNatural := natural left (mem_ascending.mp leftListed)
  have rightNatural := natural right (mem_ascending.mp rightListed)
  omega

/-- Indexes name some leaves of a tree of a depth, each of them once. -/
structure NamesLeaves (depth : Nat) (indexes : List Int) : Prop where
  nonempty : indexes ≠ []
  distinct : indexes.Nodup
  inside : ∀ index ∈ indexes, 0 ≤ index ∧ index < 2 ^ depth

namespace NamesLeaves

variable {depth : Nat} {indexes : List Int}

/-- The places of the named leaves are different. -/
theorem nodup_places (names : NamesLeaves depth indexes) : (indexes.map Int.toNat).Nodup := by
  -- No index is negative, so none is lost when they are converted.
  apply names.distinct.map_on
  intro left leftListed right rightListed same
  have leftNatural := (names.inside left leftListed).1
  have rightNatural := (names.inside right rightListed).1
  omega

/-- Indexes that name leaves name them in any other order too. -/
theorem perm {others : List Int} (names : NamesLeaves depth indexes) (same : indexes.Perm others) :
    NamesLeaves depth others where
  nonempty := fun empty => names.nonempty (List.perm_nil.mp (empty ▸ same))
  distinct := same.nodup_iff.mp names.distinct
  inside := fun index listed => names.inside index (same.mem_iff.mpr listed)

/-- The places of the named leaves are inside the tree. -/
theorem place_lt (names : NamesLeaves depth indexes) :
    ∀ place ∈ indexes.map Int.toNat, place < 2 ^ depth := by
  intro place member
  obtain ⟨index, listed, rfl⟩ := List.mem_map.mp member
  obtain ⟨natural, below⟩ := names.inside index listed
  exact (Int.toNat_lt natural).mpr (by exact_mod_cast below)

end NamesLeaves

namespace MerkleTree

variable {hasher : Hasher} (tree : MerkleTree hasher)

/-- All indexes that are looked up name leaves, or none of them is. -/
theorem collect_leafIndex_eq_ok_iff {indexes : List Int} {places : List Nat} :
    collect tree.leafIndex indexes = .ok places ↔
      (∀ index ∈ indexes, 0 ≤ index ∧ index < 2 ^ tree.depth) ∧ places = indexes.map Int.toNat := by
  induction indexes generalizing places with
  | nil =>
    -- Nothing to look up.
    simp [collect, eq_comm]
  | cons index rest ih =>
    -- The first index is checked by itself, and the others as a list.
    simp only [collect_cons_eq_ok_iff, leafIndex_eq_ok_iff, ih, List.forall_mem_cons,
      List.map_cons]
    constructor
    · intro found
      obtain ⟨place, _, ⟨rfl, below⟩, ⟨inside, rfl⟩, rfl⟩ := found
      exact ⟨⟨⟨Int.natCast_nonneg place, by exact_mod_cast below⟩, inside⟩, rfl⟩
    · intro named
      obtain ⟨⟨⟨natural, below⟩, inside⟩, rfl⟩ := named
      -- An index that is not negative is its own place.
      obtain ⟨place, rfl⟩ := Int.eq_ofNat_of_zero_le natural
      exact ⟨place, _, ⟨rfl, by exact_mod_cast below⟩, ⟨inside, rfl⟩, rfl⟩

/-- A proof is issued exactly for indexes that name leaves, and lists what they lack. -/
theorem proveBatch_eq_ok_iff {indexes : List Int} {proof : BatchProof} :
    tree.proveBatch indexes = .ok proof ↔
      NamesLeaves tree.depth indexes ∧
        proof = ⟨tree.depth, tree.absentAbove tree.depth 0 (ascending (indexes.map Int.toNat))⟩ := by
  unfold proveBatch
  -- The checks are made in order: something is named, nothing twice, everything inside.
  split
  · rename_i empty
    simp only [reduceCtorEq, false_iff]
    intro issued
    exact issued.1.nonempty empty
  · rename_i nonempty
    simp only [ne_eq, ite_not]
    split
    · rename_i distinct
      -- Sorting keeps the length only of indexes that are all different.
      rw [length_ascending_eq_iff] at distinct
      simp only [bind_eq_ok_iff, collect_leafIndex_eq_ok_iff, mem_ascending, pure_eq_ok,
        Except.ok.injEq]
      constructor
      · intro looked
        obtain ⟨_, ⟨inside, rfl⟩, issued⟩ := looked
        rw [map_toNat_ascending fun index listed => (inside index listed).1] at issued
        exact ⟨⟨nonempty, distinct, inside⟩, issued.symm⟩
      · intro named
        obtain ⟨names, rfl⟩ := named
        refine ⟨_, ⟨names.inside, rfl⟩, ?_⟩
        rw [map_toNat_ascending fun index listed => (names.inside index listed).1]
    · rename_i repeated
      rw [length_ascending_eq_iff] at repeated
      simp only [reduceCtorEq, false_iff]
      intro issued
      exact repeated issued.1.distinct

/-- The order in which leaves are named does not matter, also for what is refused. -/
theorem proveBatch_perm {indexes others : List Int} (same : indexes.Perm others) :
    tree.proveBatch indexes = tree.proveBatch others := by
  -- Only the sorted indexes and their number are looked at.
  have sorted : ascending indexes = ascending others := ascending_congr fun _ => same.mem_iff
  have empty : indexes = [] ↔ others = [] := by
    rw [← List.length_eq_zero_iff, ← List.length_eq_zero_iff, same.length_eq]
  simp only [proveBatch, sorted, same.length_eq, empty]

/-- There is one list of siblings for each level that remains. -/
@[simp] theorem length_absentAbove (remaining level : Nat) (indexes : List Nat) :
    (tree.absentAbove remaining level indexes).length = remaining := by
  induction remaining generalizing level indexes with
  | zero => rfl
  | succ remaining ih => simp [absentAbove, ih]

/-- Known nodes of a level that agree with the tree lead to its root, together with the siblings they
lack. -/
theorem mergeLevels_absentAbove {remaining level : Nat} (whole : level + remaining = tree.depth)
    {known : Known} (agrees : known.Agrees (tree.node level)) (nonempty : known.map Prod.fst ≠ [])
    (inside : ∀ index ∈ known.map Prod.fst, index < 2 ^ remaining) :
    ∃ top, hasher.mergeLevels known
        (tree.absentAbove remaining level (ascending (known.map Prod.fst))) = some top ∧
      top.lookup 0 = some tree.root := by
  -- The induction climbs the tree; what agreed on one level agrees on the next one.
  induction remaining generalizing level known with
  | zero =>
    -- The only index left is the root's, and it is known.
    obtain ⟨index, listed⟩ := List.exists_mem_of_ne_nil _ nonempty
    have top : index = 0 := Nat.lt_one_iff.mp (inside index listed)
    subst top
    refine ⟨known, rfl, ?_⟩
    cases found : known.lookup 0 with
    | none => exact absurd listed (Known.lookup_eq_none.mp found)
    | some digest => rw [← agrees 0 digest found, root, ← whole, Nat.add_zero]
  | succ remaining ih =>
    -- The tree's own nodes label the siblings that are supplied, so this level is completed.
    have merged : hasher.mergeKnown known (parentIndexes (known.map Prod.fst)) _ = some (_, []) :=
      Hasher.mergeKnown_parentIndexes_iff.mpr ⟨tree.node level, agrees, rfl, rfl⟩
    have below := parentIndexes_lt inside
    -- A parent's merged label is the tree's node, as the tree merges the same two children.
    have agreesAbove : (Known.labelled (parentIndexes (known.map Prod.fst))
        (hasher.mergeLabels (tree.node level))).Agrees (tree.node (level + 1)) := by
      apply Known.agrees_labelled
      intro parent listed
      refine tree.node_succ (by omega) ?_
      rw [show tree.depth - (level + 1) = remaining by omega]
      exact below parent listed
    obtain ⟨top, completed, found⟩ := ih (by omega) agreesAbove
      (by simpa using nonempty) (by simpa only [Known.map_fst_labelled] using below)
    refine ⟨top, ?_, found⟩
    rw [absentAbove, Hasher.mergeLevels, merged, parentIndexes_ascending]
    rwa [Known.map_fst_labelled, ascending_of_pairwise (pairwise_parentIndexes _)] at completed

end MerkleTree

namespace Hasher

variable {hasher : Hasher}

/-- A batched proof is accepted exactly if it is in order and its levels lead to the root. -/
theorem verifyBatch_eq_true_iff {root : Bytes} {indexes : List Int} {leaves : List Bytes}
    {proof : BatchProof} :
    hasher.verifyBatch root indexes leaves proof = true ↔
      NamesLeaves proof.nodes.length indexes ∧ indexes.length = leaves.length ∧
      (proof.nodes.length : Int) = proof.depth ∧
      ∃ top, hasher.mergeLevels ((indexes.map Int.toNat).zip leaves) proof.nodes = some top ∧
        top.lookup 0 = some root := by
  unfold verifyBatch
  constructor
  · intro accepted
    -- Each check that fails answers false, so an accepted proof has passed all four.
    split at accepted
    · simp at accepted
    rename_i counted
    split at accepted
    · simp at accepted
    rename_i tall
    split at accepted
    · simp at accepted
    rename_i distinct
    split at accepted
    · simp at accepted
    rename_i inside
    simp only [ne_eq, not_or, not_not] at counted tall distinct
    simp only [List.any_eq_true, Bool.or_eq_true, decide_eq_true_eq, not_exists, not_and, not_or,
      not_lt, not_le] at inside
    refine ⟨⟨counted.1, length_ascending_eq_iff.mp distinct, inside⟩, counted.2, tall, ?_⟩
    -- What is left is to complete the levels and to compare the highest node.
    split at accepted
    · rename_i top completed
      exact ⟨top, completed, by simpa using accepted⟩
    · simp at accepted
  · intro passed
    obtain ⟨names, counted, tall, top, completed, found⟩ := passed
    -- With everything in order no check answers, and the comparison decides.
    have inside : ¬(indexes.any fun index =>
        index < 0 || (Nat.pow 2 proof.nodes.length : Int) ≤ index) = true := by
      simp only [List.any_eq_true, Bool.or_eq_true, decide_eq_true_eq, not_exists, not_and,
        not_or, not_lt, not_le]
      exact names.inside
    rw [if_neg (by simp [names.nonempty, counted]), if_neg (by simp [tall]),
      if_neg (by simp [length_ascending_eq_iff.mpr names.distinct]), if_neg inside, completed]
    simp [found]

end Hasher

/-- A proof that a tree issues for some leaves is accepted for them. -/
theorem verifyBatch_of_proveBatch {hasher : Hasher} {tree : MerkleTree hasher} {indexes : List Int}
    {proof : BatchProof} (issued : tree.proveBatch indexes = .ok proof) :
    hasher.verifyBatch tree.root indexes
      (indexes.map fun index => tree.node 0 index.toNat) proof = true := by
  obtain ⟨names, rfl⟩ := tree.proveBatch_eq_ok_iff.mp issued
  -- The opened leaves are the tree's lowest nodes at the places named.
  have opened : (indexes.map Int.toNat).zip (indexes.map fun index => tree.node 0 index.toNat)
      = Known.labelled (indexes.map Int.toNat) (tree.node 0) := by
    simp [Known.labelled, List.zip_map']
  have tall := tree.length_absentAbove tree.depth 0 (ascending (indexes.map Int.toNat))
  refine Hasher.verifyBatch_eq_true_iff.mpr ⟨by rwa [tall], by simp, by simp [tall], ?_⟩
  -- They agree with the tree, so the siblings that the tree lists lead to its root.
  rw [opened]
  have agrees : (Known.labelled (indexes.map Int.toNat) (tree.node 0)).Agrees (tree.node 0) :=
    Known.agrees_labelled fun _ _ => rfl
  have climbed := tree.mergeLevels_absentAbove (Nat.zero_add tree.depth) agrees
    (by simpa using names.nonempty) (by simpa using names.place_lt)
  rwa [Known.map_fst_labelled] at climbed

/-- A tree over the digests of four short strings. -/
def fourLeaves : MerkleTree Hasher.sha3 where
  depth := 2
  leaves := [[0], [1], [2], [3]].map Hasher.sha3.digest
  length_leaves := rfl
  levels := Hasher.sha3.levels 2 ([[0], [1], [2], [3]].map Hasher.sha3.digest)
  levels_eq := rfl

/-- Over a power of two of leaves, of any widths, there is a tree. It issues a proof for some indexes exactly
if these name leaves of it, each once, in whatever order; and the proof has as many levels as the tree and
is accepted for the leaves named. -/
theorem batched_proofs_complete (hasher : Hasher) {depth : Nat} {leaves : List Bytes}
    (count : leaves.length = 2 ^ depth) :
    ∃ tree, MerkleTree.ofLeaves hasher leaves = .ok tree ∧ ∀ indexes : List Int,
      ((∃ proof, tree.proveBatch indexes = .ok proof) ↔
        indexes ≠ [] ∧ indexes.Nodup ∧ ∀ index ∈ indexes, 0 ≤ index ∧ index < 2 ^ depth) ∧
      (∀ others, indexes.Perm others → tree.proveBatch indexes = tree.proveBatch others) ∧
      ∀ proof, tree.proveBatch indexes = .ok proof →
        proof.depth = depth ∧ proof.nodes.length = depth ∧
        ∃ opened, opened.map some = indexes.map (fun index => leaves[index.toNat]?) ∧
          hasher.verifyBatch tree.root indexes opened proof = true := by
  obtain ⟨tree, built, rfl, rfl⟩ := MerkleTree.exists_ofLeaves hasher count
  refine ⟨tree, built, fun indexes => ⟨?_, fun others => tree.proveBatch_perm, ?_⟩⟩
  · -- What is checked is what the three conditions say.
    constructor
    · intro issued
      obtain ⟨_, issued⟩ := issued
      obtain ⟨names, _⟩ := tree.proveBatch_eq_ok_iff.mp issued
      exact ⟨names.nonempty, names.distinct, names.inside⟩
    · intro named
      obtain ⟨nonempty, distinct, inside⟩ := named
      exact ⟨_, tree.proveBatch_eq_ok_iff.mpr ⟨⟨nonempty, distinct, inside⟩, rfl⟩⟩
  · intro proof issued
    have accepted := verifyBatch_of_proveBatch issued
    obtain ⟨names, rfl⟩ := tree.proveBatch_eq_ok_iff.mp issued
    refine ⟨rfl, tree.length_absentAbove .., _, ?_, accepted⟩
    -- The leaves named are the lowest nodes of the tree.
    rw [List.map_map]
    refine List.map_congr_left fun index listed => ?_
    have listedPlace := names.place_lt index.toNat (List.mem_map_of_mem listed)
    have place : index.toNat < tree.leaves.length := by rwa [tree.length_leaves]
    rw [Function.comp_apply, tree.node_zero, List.getElem?_eq_getElem place,
      List.getD_eq_getElem _ _ place]

/-- Four strings of different lengths, the last and the first of which are opened. -/
theorem batched_proofs_complete_mixed_widths :
    let leaves : List Bytes := [[], [1], [2, 2], [3, 3, 3]]
    leaves.length = 2 ^ 2 ∧ ∃ tree, MerkleTree.ofLeaves Hasher.sha3 leaves = .ok tree ∧
      ∃ proof, tree.proveBatch [3, 0] = .ok proof ∧ tree.proveBatch [0, 3] = .ok proof ∧
        proof.nodes.length = 2 ∧
        Hasher.sha3.verifyBatch tree.root [3, 0] [[3, 3, 3], []] proof = true := by
  intro leaves
  have count : leaves.length = 2 ^ 2 := rfl
  obtain ⟨tree, built, complete⟩ := batched_proofs_complete Hasher.sha3 count
  obtain ⟨issues, reordered, proved⟩ := complete [3, 0]
  obtain ⟨proof, issued⟩ := issues.mpr (by decide)
  obtain ⟨_, levels, opened, named, accepted⟩ := proved proof issued
  -- The leaves opened are the last one and the first.
  obtain rfl : opened = [[3, 3, 3], []] :=
    List.map_injective_iff.mpr (Option.some_injective Bytes) named
  exact ⟨count, tree, built, proof, issued,
    (reordered [0, 3] (List.Perm.swap ..)).symm.trans issued, levels, accepted⟩

end Proximity
