import Mathlib
import Proximity.Proofs.Merkle.Batch

/-! An accepted batched proof is a partial tree: labels for the nodes above the opened leaves and for
their siblings, each parent the merge of its children, with the supplied digests in their places. -/

namespace Proximity

/-- The nodes of a level above some places: the places themselves, halved once for each level. -/
def nodesAbove (places : List Nat) : (level : Nat) → Finset Nat
  | 0 => places.toFinset
  | level + 1 => (nodesAbove places level).image (· / 2)

/-- The level above the places consists of their parents. -/
theorem toFinset_parentIndexes (places : List Nat) :
    (parentIndexes places).toFinset = nodesAbove places 1 := by
  ext parent
  simp [nodesAbove]

/-- Every level above the parents is one level further above the places. -/
theorem nodesAbove_parentIndexes (places : List Nat) (level : Nat) :
    nodesAbove (parentIndexes places) level = nodesAbove places (level + 1) := by
  -- Halving one level more is the same on both sides.
  induction level with
  | zero => exact toFinset_parentIndexes places
  | succ level ih => exact congrArg (Finset.image (· / 2)) ih

/-- The order of the places does not matter for the nodes above them. -/
theorem nodesAbove_perm {places others : List Nat} (same : places.Perm others) (level : Nat) :
    nodesAbove places level = nodesAbove others level := by
  -- A set of places has no order, and halving starts from that set.
  induction level with
  | zero => exact List.toFinset_eq_of_perm _ _ same
  | succ level ih => rw [nodesAbove, ih, nodesAbove]

/-- The siblings that a level lacks are those of the nodes without theirs, in ascending order. -/
theorem absentSiblings_eq_map_sort (places : List Nat) :
    absentSiblings (ascending places)
      = ((places.toFinset.filter fun index => index ^^^ 1 ∉ places.toFinset).sort).map (· ^^^ 1) := by
  -- Both lists go through the same nodes in ascending order.
  have nodes : (ascending places).filter (fun index => !(ascending places).contains (sibling index))
      = (places.toFinset.filter fun index => index ^^^ 1 ∉ places.toFinset).sort := by
    refine ((pairwise_ascending places).filter _).eq_of_mem_iff
      (Finset.sortedLT_sort _).pairwise fun index => ?_
    simp [sibling_eq_xor]
  rw [absentSiblings, nodes]
  exact List.map_congr_left fun index _ => sibling_eq_xor index

namespace Known

/-- A labelling agrees with known nodes of different indexes if it gives each of them its digest. -/
theorem agrees_iff {known : Known} (distinct : (known.map Prod.fst).Nodup) {label : Nat → Bytes} :
    known.Agrees label ↔ ∀ index digest, (index, digest) ∈ known → label index = digest :=
  ⟨fun agrees index digest member => agrees index digest (lookup_of_mem distinct member),
    fun labels index digest found => labels index digest (mem_of_lookup found)⟩

end Known

namespace Hasher

variable {hasher : Hasher}

/-- A labelling of nodes by level and index makes some known leaves, with the digests supplied for each
level, into a partial tree under a root. -/
structure IsPartialTree (hasher : Hasher) (known : Known) (levels : List (List Bytes)) (root : Bytes)
    (label : Nat → Nat → Bytes) : Prop where
  /-- Every known leaf has its own label. -/
  leaves : ∀ index digest, (index, digest) ∈ known → label 0 index = digest
  /-- A level is supplied with the labels of the siblings that are not above the leaves, in the order
  of the nodes they belong to. -/
  siblings : ∀ level (inside : level < levels.length),
    levels[level] = (((nodesAbove (known.map Prod.fst) level).filter fun index =>
      index ^^^ 1 ∉ nodesAbove (known.map Prod.fst) level).sort).map fun index =>
        label level (index ^^^ 1)
  /-- Every node above the leaves merges its children. -/
  parents : ∀ level < levels.length, ∀ index ∈ nodesAbove (known.map Prod.fst) (level + 1),
    label (level + 1) index = hasher.merge (label level (2 * index)) (label level (2 * index + 1))
  /-- The highest node is the root. -/
  top : label levels.length 0 = root

namespace IsPartialTree

variable {known : Known} {levels : List (List Bytes)} {root : Bytes} {label : Nat → Nat → Bytes}

/-- The order in which the leaves are known does not matter. -/
theorem perm {other : Known} (tree : hasher.IsPartialTree known levels root label)
    (same : known.Perm other) : hasher.IsPartialTree other levels root label := by
  -- Only the members of the list and the nodes above them are spoken of.
  have above := nodesAbove_perm (same.map Prod.fst)
  exact {
    leaves := fun index digest member => tree.leaves index digest (same.mem_iff.mpr member)
    siblings := fun level inside => by rw [← above]; exact tree.siblings level inside
    parents := fun level inside => by rw [← above]; exact tree.parents level inside
    top := tree.top }

end IsPartialTree

/-- A partial tree is its lowest level, labelled as known and supplied, under the partial tree on the
merged parents. -/
theorem isPartialTree_cons_iff {known : Known} (distinct : (known.map Prod.fst).Nodup)
    {supplied : List Bytes} {levels : List (List Bytes)} {root : Bytes} {label : Nat → Nat → Bytes} :
    hasher.IsPartialTree known (supplied :: levels) root label ↔
      known.Agrees (label 0) ∧
      supplied = (absentSiblings (ascending (known.map Prod.fst))).map (label 0) ∧
      hasher.IsPartialTree
        (Known.labelled (parentIndexes (known.map Prod.fst)) (hasher.mergeLabels (label 0)))
        levels root fun level => label (level + 1) := by
  rw [Known.agrees_iff distinct, absentSiblings_eq_map_sort, List.map_map]
  constructor
  · -- What is said of the levels from the first on is said of the tree on the parents.
    intro tree
    refine ⟨tree.leaves, tree.siblings 0 (Nat.zero_lt_succ _), ?_⟩
    exact {
      leaves := by
        intro parent digest member
        obtain ⟨_, listed, pair⟩ := List.mem_map.mp member
        obtain ⟨rfl, rfl⟩ := Prod.mk.inj pair
        -- A merged parent is a node of the first level above the leaves.
        apply tree.parents 0 (Nat.zero_lt_succ _)
        rwa [← toFinset_parentIndexes, List.mem_toFinset]
      siblings := fun level inside => by
        rw [Known.map_fst_labelled, nodesAbove_parentIndexes]
        exact tree.siblings (level + 1) (Nat.succ_lt_succ inside)
      parents := fun level inside => by
        rw [Known.map_fst_labelled, nodesAbove_parentIndexes]
        exact tree.parents (level + 1) (Nat.succ_lt_succ inside)
      top := tree.top }
  · -- The lowest level is given by itself, and all others are one level lower above it.
    intro layered
    obtain ⟨leaves, siblings, above⟩ := layered
    have higherSiblings := above.siblings
    have higherParents := above.parents
    simp only [Known.map_fst_labelled, nodesAbove_parentIndexes] at higherSiblings higherParents
    exact {
      leaves := leaves
      siblings := fun level inside => by
        -- What the list of supplied levels has first belongs to the leaves, the rest to the tree above.
        cases level with
        | zero => exact siblings
        | succ level => exact higherSiblings level (Nat.lt_of_succ_lt_succ inside)
      parents := fun level inside => by
        cases level with
        | zero =>
          -- The parents of the leaves were merged, and labelled as such.
          intro parent listed
          rw [← toFinset_parentIndexes, List.mem_toFinset] at listed
          exact above.leaves parent _ (List.mem_map.mpr ⟨parent, listed, rfl⟩)
        | succ level => exact higherParents level (Nat.lt_of_succ_lt_succ inside)
      top := above.top }

/-- A labelling with one more level below all others. -/
def labelsOver (lowest : Nat → Bytes) (above : Nat → Nat → Bytes) : (level : Nat) → Nat → Bytes
  | 0 => lowest
  | level + 1 => above level

/-- Known leaves lead to a root, with the digests supplied for each level, exactly if there is a partial
tree for them. -/
theorem mergeLevels_root_iff {known : Known} {levels : List (List Bytes)} {root : Bytes}
    (distinct : (known.map Prod.fst).Nodup) (nonempty : known.map Prod.fst ≠ [])
    (inside : ∀ index ∈ known.map Prod.fst, index < 2 ^ levels.length) :
    (∃ top, hasher.mergeLevels known levels = some top ∧ top.lookup 0 = some root) ↔
      ∃ label, hasher.IsPartialTree known levels root label := by
  -- One level is completed at a time, and its merged parents are what is known above it.
  induction levels generalizing known with
  | nil =>
    -- Without a level to complete, the only leaf there can be is compared with the root.
    obtain ⟨index, listed⟩ := List.exists_mem_of_ne_nil _ nonempty
    obtain rfl : index = 0 := Nat.lt_one_iff.mp (inside index listed)
    obtain ⟨digest, known0⟩ := Known.exists_lookup_of_mem listed
    constructor
    · intro completed
      obtain ⟨top, rfl, found⟩ : ∃ top, known = top ∧ top.lookup 0 = some root := by
        simpa [mergeLevels] using completed
      -- Labels are what is known, and there is no level to supply or to merge.
      refine ⟨fun _ index => (known.lookup index).getD [], ?_, ?_, ?_, ?_⟩
      · intro index digest member
        rw [Known.lookup_of_mem distinct member, Option.getD_some]
      · intro level beyond
        exact absurd beyond (Nat.not_lt_zero level)
      · intro level beyond
        exact absurd beyond (Nat.not_lt_zero level)
      · rw [found, Option.getD_some]
    · -- In the other direction the label of the only node is both the leaf and the root.
      intro labelled
      obtain ⟨label, tree⟩ := labelled
      have leaf := tree.leaves 0 digest (Known.mem_of_lookup known0)
      exact ⟨known, rfl, by rw [known0, ← leaf, ← tree.top]; rfl⟩
  | cons supplied levels ih =>
    -- Whatever the labels, the merged parents are different nodes of the level above.
    have higher : ∀ label : Nat → Bytes, (∃ top, hasher.mergeLevels
        (Known.labelled (parentIndexes (known.map Prod.fst)) (hasher.mergeLabels label)) levels
          = some top ∧ top.lookup 0 = some root) ↔ ∃ above, hasher.IsPartialTree
        (Known.labelled (parentIndexes (known.map Prod.fst)) (hasher.mergeLabels label))
          levels root above := by
      intro label
      apply ih
      · -- Merged parents are different nodes, at least one, and inside their level.
        rw [Known.map_fst_labelled]
        exact (pairwise_parentIndexes _).nodup
      · rwa [Known.map_fst_labelled, ne_eq, parentIndexes_eq_nil]
      · rw [Known.map_fst_labelled]
        exact parentIndexes_lt inside
    constructor
    · -- The labels that completed this level go below those of the levels above.
      intro completed
      obtain ⟨top, completed, found⟩ := completed
      obtain ⟨_, merged, climbed⟩ := mergeLevels_cons_eq_some_iff.mp completed
      obtain ⟨lowest, agrees, siblings, rfl⟩ := mergeKnown_parentIndexes_iff.mp merged
      obtain ⟨above, tree⟩ := (higher lowest).mp ⟨top, climbed, found⟩
      exact ⟨labelsOver lowest above, (isPartialTree_cons_iff distinct).mpr ⟨agrees, siblings, tree⟩⟩
    · -- The lowest labels complete this level, and the others those above.
      intro labelled
      obtain ⟨label, tree⟩ := labelled
      obtain ⟨agrees, siblings, above⟩ := (isPartialTree_cons_iff distinct).mp tree
      obtain ⟨top, climbed, found⟩ := (higher (label 0)).mpr ⟨_, above⟩
      have merged : hasher.mergeKnown known (parentIndexes (known.map Prod.fst)) supplied
          = some (_, []) := mergeKnown_parentIndexes_iff.mpr ⟨label 0, agrees, siblings, rfl⟩
      exact ⟨top, mergeLevels_cons_eq_some_iff.mpr ⟨_, merged, climbed⟩, found⟩

/-- A batched proof is accepted exactly if its indexes name leaves of a tree as tall as it has levels, one
leaf is given for each of them, and there is a partial tree for these leaves under the root. -/
theorem verifyBatch_iff_isPartialTree {root : Bytes} {indexes : List Int} {leaves : List Bytes}
    {proof : BatchProof} :
    hasher.verifyBatch root indexes leaves proof = true ↔
      ∃ depth : Nat, proof.depth = depth ∧ proof.nodes.length = depth ∧
        NamesLeaves depth indexes ∧ indexes.length = leaves.length ∧
        ∃ label, hasher.IsPartialTree ((indexes.map Int.toNat).zip leaves) proof.nodes root label := by
  rw [verifyBatch_eq_true_iff]
  -- Once everything is in order, completing the levels is finding the labels.
  have labels : NamesLeaves proof.nodes.length indexes → indexes.length = leaves.length →
      ((∃ top, hasher.mergeLevels ((indexes.map Int.toNat).zip leaves) proof.nodes = some top ∧
        top.lookup 0 = some root) ↔ ∃ label,
          hasher.IsPartialTree ((indexes.map Int.toNat).zip leaves) proof.nodes root label) := by
    intro names counted
    have places : ((indexes.map Int.toNat).zip leaves).map Prod.fst = indexes.map Int.toNat :=
      List.map_fst_zip (by simp [counted])
    -- The known leaves meet what the levels ask of them, as the indexes name leaves.
    apply mergeLevels_root_iff
    · rw [places]
      exact names.nodup_places
    · rw [places, ne_eq, List.map_eq_nil_iff]
      exact names.nonempty
    · rw [places]
      exact names.place_lt
  constructor
  · intro accepted
    obtain ⟨names, counted, tall, completed⟩ := accepted
    exact ⟨_, tall.symm, rfl, names, counted, (labels names counted).mp completed⟩
  · intro justified
    obtain ⟨_, tall, rfl, names, counted, tree⟩ := justified
    exact ⟨names, counted, tall.symm, (labels names counted).mpr tree⟩

/-- A proof that is accepted for some leaves is accepted for them in any other order. -/
theorem verifyBatch_of_perm {root : Bytes} {proof : BatchProof} {opened others : List (Int × Bytes)}
    (same : opened.Perm others)
    (accepted : hasher.verifyBatch root (opened.map Prod.fst) (opened.map Prod.snd) proof = true) :
    hasher.verifyBatch root (others.map Prod.fst) (others.map Prod.snd) proof = true := by
  -- Some labels fit the leaves in the order they were accepted in.
  obtain ⟨depth, tall, levels, names, _, label, tree⟩ := verifyBatch_iff_isPartialTree.mp accepted
  -- The known leaves are the pairs themselves, each index turned into its place.
  have named : ∀ pairs : List (Int × Bytes), ((pairs.map Prod.fst).map Int.toNat).zip
      (pairs.map Prod.snd) = pairs.map fun pair => (pair.1.toNat, pair.2) := by
    intro pairs
    rw [List.map_map, List.zip_map']
    rfl
  rw [named] at tree
  refine verifyBatch_iff_isPartialTree.mpr
    ⟨depth, tall, levels, names.perm (same.map _), by simp, label, ?_⟩
  rw [named]
  exact tree.perm (same.map _)

end Hasher

/-- The check of a batched proof says yes exactly if the indexes name leaves of a tree as tall as the proof
has levels, one leaf is given for each of them, and a partial tree has these leaves, the supplied siblings
and the root; and it says the same whatever the order of the leaves and their indexes. -/
theorem accepted_iff_partial_tree (hasher : Hasher) (root : Bytes) (proof : BatchProof) :
    (∀ (indexes : List Int) (leaves : List Bytes),
      hasher.verifyBatch root indexes leaves proof = true ↔
        ∃ depth : Nat, proof.depth = depth ∧ proof.nodes.length = depth ∧
          NamesLeaves depth indexes ∧ indexes.length = leaves.length ∧
          ∃ label, hasher.IsPartialTree ((indexes.map Int.toNat).zip leaves) proof.nodes root label) ∧
    ∀ opened others : List (Int × Bytes), opened.Perm others →
      hasher.verifyBatch root (opened.map Prod.fst) (opened.map Prod.snd) proof
        = hasher.verifyBatch root (others.map Prod.fst) (others.map Prod.snd) proof := by
  refine ⟨fun indexes leaves => Hasher.verifyBatch_iff_isPartialTree, fun opened others same => ?_⟩
  -- Each order is accepted if the other one is.
  exact Bool.eq_iff_iff.mpr ⟨Hasher.verifyBatch_of_perm same, Hasher.verifyBatch_of_perm same.symm⟩

/-- Two leaves of four that share no parent have a partial tree, and can be given in either order. -/
theorem accepted_iff_partial_tree_two_of_four :
    let opened : List (Int × Bytes) := [(2, Hasher.sha3.digest [2]), (0, Hasher.sha3.digest [0])]
    let others : List (Int × Bytes) := [(0, Hasher.sha3.digest [0]), (2, Hasher.sha3.digest [2])]
    let proof : BatchProof := ⟨2, [[[1], [3]].map Hasher.sha3.digest, []]⟩
    opened.Perm others ∧
      Hasher.sha3.verifyBatch fourLeaves.root [2, 0] (opened.map Prod.snd) proof = true ∧
      (∃ label, Hasher.sha3.IsPartialTree [(2, Hasher.sha3.digest [2]), (0, Hasher.sha3.digest [0])]
        proof.nodes fourLeaves.root label) ∧
      Hasher.sha3.verifyBatch fourLeaves.root [0, 2] (others.map Prod.snd) proof = true := by
  intro opened others proof
  have same : opened.Perm others := List.Perm.swap ..
  have issued : fourLeaves.proveBatch [2, 0] = .ok proof := rfl
  have accepted : Hasher.sha3.verifyBatch fourLeaves.root [2, 0] (opened.map Prod.snd) proof = true :=
    verifyBatch_of_proveBatch issued
  obtain ⟨justified, reordered⟩ := accepted_iff_partial_tree Hasher.sha3 fourLeaves.root proof
  obtain ⟨_, _, _, _, _, tree⟩ := (justified [2, 0] (opened.map Prod.snd)).mp accepted
  exact ⟨same, accepted, tree, (reordered opened others same).symm.trans accepted⟩

end Proximity
