import Mathlib
import Proximity.Proofs.Merkle.Batch
import Proximity.Proofs.Merkle.Messages

/-! An accepted batched proof is the tree's own, or its check and the tree's construction collide. -/

namespace Proximity

variable {hasher : Hasher}

namespace MerkleTree

variable (tree : MerkleTree hasher)

/-- Two pairs of nodes of one width are equal if they are once they stand one behind the other. -/
theorem pair_inj {width : Nat} {left right otherLeft otherRight : Bytes}
    (same : left ++ right = otherLeft ++ otherRight) (widthLeft : otherLeft.length = width)
    (widthRight : otherRight.length = width) (oneWidth : left.length = width ∨ right.length = width) :
    left = otherLeft ∧ right = otherRight := by
  -- The known node of the pair tells where the other one starts.
  rcases oneWidth with known | known
  · exact List.append_inj same (known.trans widthLeft.symm)
  · exact List.append_inj' same (known.trans widthRight.symm)

/-- If the parents of known nodes are the tree's, so are the nodes and their siblings, or two
different strings were hashed into one parent. -/
theorem labels_eq_or_collide (leaves : ∀ leaf ∈ tree.leaves, leaf.length = hasher.digestSize)
    {level : Nat} (inside : level < tree.depth) {indexes : List Nat} {label : Nat → Bytes}
    (below : ∀ index ∈ indexes, index < 2 ^ (tree.depth - level))
    (widths : ∀ index ∈ indexes, (label index).length = hasher.digestSize)
    (parents : ∀ parent ∈ parentIndexes indexes,
      hasher.mergeLabels label parent = tree.node (level + 1) parent) :
    (∀ index, index / 2 ∈ parentIndexes indexes → label index = tree.node level index) ∨
      hasher.Collide tree.messages ((parentIndexes indexes).map fun parent =>
        label (2 * parent) ++ label (2 * parent + 1)) := by
  -- A level is twice as wide as the one above, so the parents stand inside theirs.
  have height : tree.depth - level = tree.depth - (level + 1) + 1 := by omega
  rw [height] at below
  have parentsBelow := parentIndexes_lt below
  by_cases same : ∀ parent ∈ parentIndexes indexes, label (2 * parent) ++ label (2 * parent + 1)
      = tree.node level (2 * parent) ++ tree.node level (2 * parent + 1)
  · -- If every parent hashed the tree's own string, its two children can only be the tree's.
    left
    intro child listed
    have bound := parentsBelow _ listed
    have widthOf : ∀ index, index / 2 = child / 2 →
        (tree.node level index).length = hasher.digestSize := fun index parent =>
      tree.length_node leaves inside.le (by rw [height, pow_succ]; omega)
    -- At least one child of the parent was known, and known nodes have the digest's size.
    obtain ⟨index, known, parent⟩ := mem_parentIndexes.mp listed
    have oneWidth : (label (2 * (child / 2))).length = hasher.digestSize ∨
        (label (2 * (child / 2) + 1)).length = hasher.digestSize := by
      rcases Nat.mod_two_eq_zero_or_one index with even | odd
      · rw [show 2 * (child / 2) = index by omega]
        exact Or.inl (widths index known)
      · rw [show 2 * (child / 2) + 1 = index by omega]
        exact Or.inr (widths index known)
    obtain ⟨left, right⟩ := pair_inj (same _ listed) (widthOf _ (by omega)) (widthOf _ (by omega))
      oneWidth
    rcases Nat.mod_two_eq_zero_or_one child with even | odd
    · rwa [show 2 * (child / 2) = child by omega] at left
    · rwa [show 2 * (child / 2) + 1 = child by omega] at right
  · -- Otherwise a parent hashed another string, and still got the tree's digest.
    push Not at same
    obtain ⟨parent, listed, different⟩ := same
    have bound := parentsBelow parent listed
    refine Or.inr ⟨_, tree.mem_messages inside bound, _,
      List.mem_map.mpr ⟨parent, listed, rfl⟩, different.symm, ?_⟩
    exact (tree.node_succ inside bound).symm.trans (parents parent listed).symm

/-- If the merged nodes are the tree's, so are the nodes they come from and the siblings supplied, or
two different strings were hashed into one of them. -/
theorem mergeKnown_binding (leaves : ∀ leaf ∈ tree.leaves, leaf.length = hasher.digestSize)
    {level : Nat} (inside : level < tree.depth) {known above : Known} {supplied : List Bytes}
    (below : ∀ index ∈ known.map Prod.fst, index < 2 ^ (tree.depth - level))
    (widths : ∀ index digest, known.lookup index = some digest → digest.length = hasher.digestSize)
    (merged : hasher.mergeKnown known (parentIndexes (known.map Prod.fst)) supplied
      = some (above, []))
    (agreesAbove : above.Agrees (tree.node (level + 1))) :
    (known.Agrees (tree.node level) ∧
        supplied = (absentSiblings (ascending (known.map Prod.fst))).map (tree.node level)) ∨
      hasher.Collide tree.messages
        (Hasher.mergeMessages known (parentIndexes (known.map Prod.fst)) supplied) := by
  obtain ⟨label, agrees, rfl, rfl⟩ := Hasher.mergeKnown_parentIndexes_iff.mp merged
  -- The labels of the children are what is hashed for the parents.
  have hashed := Hasher.mergeMessages_of_agrees agrees
    (fun parent member => mem_parentIndexes.mp member) []
  rw [← absentSiblings_ascending, List.append_nil] at hashed
  -- Known nodes are labelled by themselves, and only their widths are needed.
  have labelWidths : ∀ index ∈ known.map Prod.fst,
      (label index).length = hasher.digestSize := by
    intro index listed
    obtain ⟨digest, looked⟩ := Known.exists_lookup_of_mem listed
    rw [agrees index digest looked]
    exact widths index digest looked
  have parents : ∀ parent ∈ parentIndexes (known.map Prod.fst),
      hasher.mergeLabels label parent = tree.node (level + 1) parent := fun parent listed =>
    (agreesAbove parent _ (Known.lookup_labelled listed _)).symm
  -- The children are settled parent by parent, for the known nodes and the siblings alike.
  rcases tree.labels_eq_or_collide leaves inside below labelWidths parents with labels | collide
  · refine Or.inl ⟨fun index digest looked => ?_, ?_⟩
    · have listed := Known.index_mem_of_lookup looked
      rw [← labels index (mem_parentIndexes.mpr ⟨index, listed, rfl⟩)]
      exact agrees index digest looked
    · -- Only children of the merged nodes are supplied.
      rw [absentSiblings_ascending]
      refine List.map_congr_left fun child member => labels child ?_
      obtain ⟨parent, listed, absent⟩ := List.mem_flatMap.mp member
      rwa [(mem_absentChildren.mp absent).1]
  · exact Or.inr (hashed ▸ collide)

/-- Nodes that lead to the root are the tree's, and so is every sibling supplied on the way, or the
way there collides with the tree's construction. -/
theorem mergeLevels_binding (leaves : ∀ leaf ∈ tree.leaves, leaf.length = hasher.digestSize)
    {levels : List (List Bytes)} {level : Nat} (whole : level + levels.length = tree.depth)
    {known top : Known} (below : ∀ index ∈ known.map Prod.fst, index < 2 ^ levels.length)
    (widths : ∀ index digest, known.lookup index = some digest → digest.length = hasher.digestSize)
    (completed : hasher.mergeLevels known levels = some top)
    (found : top.lookup 0 = some tree.root) :
    (known.Agrees (tree.node level) ∧
        levels = tree.absentAbove levels.length level (ascending (known.map Prod.fst))) ∨
      hasher.Collide tree.messages (hasher.completionMessages known levels) := by
  -- The levels are completed upwards, and the root fixes them from the top down.
  induction levels generalizing level known with
  | nil =>
    -- The only node there is was compared with the root.
    simp only [Hasher.mergeLevels, Option.some.injEq] at completed
    subst completed
    refine Or.inl ⟨fun index digest looked => ?_, rfl⟩
    have first : index = 0 := Nat.lt_one_iff.mp (below index (Known.index_mem_of_lookup looked))
    rw [first, found, Option.some.injEq] at looked
    rw [← looked, first, root, ← whole]
    rfl
  | cons supplied levels ih =>
    obtain ⟨above, merged, climbed⟩ := Hasher.mergeLevels_cons_eq_some_iff.mp completed
    simp only [Hasher.completionMessages, merged]
    simp only [List.length_cons] at whole below ⊢
    have indexes := Hasher.map_fst_of_mergeKnown merged
    have parentsBelow := parentIndexes_lt below
    have higher : level + 1 + levels.length = tree.depth := by omega
    -- The merged nodes have the digest's size, whatever the siblings below were like.
    rcases ih higher (by rwa [indexes])
      (Hasher.length_of_mergeKnown merged) climbed with ⟨agreesAbove, siblings⟩ | collide
    · rw [indexes, ascending_of_pairwise (pairwise_parentIndexes _),
        ← parentIndexes_ascending] at siblings
      rw [show levels.length + 1 = tree.depth - level by omega] at below
      rcases tree.mergeKnown_binding leaves (by omega) below widths merged agreesAbove
        with ⟨agrees, absent⟩ | collide
      · -- Below and above both agree, which makes up the whole list of levels.
        exact Or.inl ⟨agrees, List.cons_eq_cons.mpr ⟨absent, siblings⟩⟩
      · -- A collision on this level or on one above is among the messages of the completion.
        exact Or.inr (collide.mono (List.Subset.refl _) (List.subset_append_left _ _))
    · exact Or.inr (collide.mono (List.Subset.refl _) (List.subset_append_right _ _))

end MerkleTree

/-- An accepted proof for leaves of the digest's size opens the tree's own leaves and lists exactly
the siblings that the tree lists for them, or its check and the tree's construction collide. -/
theorem verifyBatch_binding (tree : MerkleTree hasher)
    (leaves : ∀ leaf ∈ tree.leaves, leaf.length = hasher.digestSize) {indexes : List Int}
    {opened : List Bytes} (openedLeaves : ∀ leaf ∈ opened, leaf.length = hasher.digestSize)
    {proof : BatchProof} (tall : proof.depth = tree.depth)
    (accepted : hasher.verifyBatch tree.root indexes opened proof = true) :
    (indexes.map tree.leaf = opened.map .ok ∧ tree.proveBatch indexes = .ok proof) ∨
      hasher.Collide tree.messages (hasher.verifyMessages indexes opened proof) := by
  obtain ⟨names, counted, levelCount, top, completed, found⟩ :=
    Hasher.verifyBatch_eq_true_iff.mp accepted
  -- Both readings of the proof's height agree with the tree's.
  have height : proof.nodes.length = tree.depth := by exact_mod_cast levelCount.trans tall
  have places : ((indexes.map Int.toNat).zip opened).map Prod.fst = indexes.map Int.toNat :=
    List.map_fst_zip (by simp [counted])
  have widths : ∀ index digest, ((indexes.map Int.toNat).zip opened).lookup index = some digest →
      digest.length = hasher.digestSize := fun index digest looked =>
    openedLeaves digest (List.of_mem_zip (Known.mem_of_lookup looked)).2
  have whole : 0 + proof.nodes.length = tree.depth := by omega
  rcases tree.mergeLevels_binding leaves whole
    (by rw [places]; exact names.place_lt) widths completed found with ⟨agrees, siblings⟩ | collide
  · refine Or.inl ⟨?_, tree.proveBatch_eq_ok_iff.mpr ⟨height ▸ names, ?_⟩⟩
    · apply List.ext_getElem (by simp [counted])
      intro place listed others
      simp only [List.length_map] at listed others
      -- Every opened leaf is known under its place, where it agrees with the tree.
      have member : (indexes[place].toNat, opened[place]) ∈ (indexes.map Int.toNat).zip opened :=
        List.mem_iff_getElem.mpr ⟨place, by simp [listed, others], by simp⟩
      have looked := Known.lookup_of_mem (by rw [places]; exact names.nodup_places) member
      obtain ⟨natural, below⟩ := names.inside _ (List.getElem_mem listed)
      rw [List.getElem_map, List.getElem_map, tree.leaf_eq_ok natural (height ▸ below),
        agrees _ _ looked]
    · -- The levels supplied are those that the tree lists for the same leaves.
      rw [places, height] at siblings
      rw [← siblings, ← tall]
  · exact Or.inr collide

/-- Two leaves in descending order, which share no parent and lack a sibling each. -/
theorem verifyBatch_binding_two_of_four :
    let opened := [[2], [0]].map Hasher.sha3.digest
    let proof : BatchProof := ⟨2, [[[1], [3]].map Hasher.sha3.digest, []]⟩
    (∀ leaf ∈ fourLeaves.leaves, leaf.length = 32) ∧ (∀ leaf ∈ opened, leaf.length = 32) ∧
      proof.depth = fourLeaves.depth ∧
      Hasher.sha3.verifyBatch fourLeaves.root [2, 0] opened proof = true ∧
      (([2, 0].map fourLeaves.leaf = opened.map .ok ∧ fourLeaves.proveBatch [2, 0] = .ok proof) ∨
        Hasher.sha3.Collide fourLeaves.messages
          (Hasher.sha3.verifyMessages [2, 0] opened proof)) := by
  intro opened proof
  -- Every leaf in sight is a digest.
  have widths : ∀ strings : List Bytes, ∀ leaf ∈ strings.map Hasher.sha3.digest,
      leaf.length = 32 := by
    intro strings leaf member
    obtain ⟨string, _, rfl⟩ := List.mem_map.mp member
    exact Hasher.sha3.length_digest string
  have issued : fourLeaves.proveBatch [2, 0] = .ok proof := rfl
  have accepted : Hasher.sha3.verifyBatch fourLeaves.root [2, 0] opened proof = true :=
    verifyBatch_of_proveBatch issued
  exact ⟨widths _, widths _, rfl, accepted,
    verifyBatch_binding fourLeaves (widths _) (widths _) rfl accepted⟩

end Proximity
