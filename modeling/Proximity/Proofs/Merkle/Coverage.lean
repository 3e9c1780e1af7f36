import Mathlib
import Proximity.Proofs.Merkle.Labelling

/-! What a batched proof supplies: the leaves below its digests and the opened leaves are all leaves of the
tree, each of them once. -/

namespace Proximity

/-- The nodes above some places are the places halved as often as the level says. -/
theorem mem_nodesAbove {places : List Nat} {level index : Nat} :
    index ∈ nodesAbove places level ↔ ∃ place ∈ places, place / 2 ^ level = index := by
  induction level generalizing index with
  | zero => simp [nodesAbove]
  | succ level ih =>
    -- Halving once more is dividing by one more power of two.
    simp only [nodesAbove, Finset.mem_image, ih, pow_succ, ← Nat.div_div_eq_div_mul]
    constructor
    · intro halved
      obtain ⟨_, ⟨place, listed, rfl⟩, rfl⟩ := halved
      exact ⟨place, listed, rfl⟩
    · intro above
      obtain ⟨place, listed, rfl⟩ := above
      exact ⟨_, ⟨place, listed, rfl⟩, rfl⟩

/-- The nodes above places in a tree are nodes of the tree. -/
theorem lt_of_mem_nodesAbove {depth level index : Nat} {places : List Nat}
    (inside : ∀ place ∈ places, place < 2 ^ depth) (within : level ≤ depth)
    (above : index ∈ nodesAbove places level) : index < 2 ^ (depth - level) := by
  -- A node is a place that has been halved, and so have the bounds.
  obtain ⟨place, listed, rfl⟩ := mem_nodesAbove.mp above
  apply Nat.div_lt_of_lt_mul
  rw [← pow_add, Nat.add_sub_cancel' within]
  exact inside place listed

/-- Above all places of a tree there is only the root. -/
theorem nodesAbove_depth {depth : Nat} {places : List Nat} (nonempty : places ≠ [])
    (inside : ∀ place ∈ places, place < 2 ^ depth) : nodesAbove places depth = {0} := by
  obtain ⟨place, listed⟩ := List.exists_mem_of_ne_nil _ nonempty
  -- Some place is halved down to the root.
  refine Finset.eq_singleton_iff_unique_mem.mpr ⟨?_, fun index above => ?_⟩
  · exact mem_nodesAbove.mpr ⟨place, listed, Nat.div_eq_of_lt (inside place listed)⟩
  · -- On the root's level there is no other index.
    have below := lt_of_mem_nodesAbove inside le_rfl above
    rwa [Nat.sub_self, pow_zero, Nat.lt_one_iff] at below

/-- Places in ascending order are the lowest nodes above them. -/
theorem ascending_eq_sort (places : List Nat) : ascending places = places.toFinset.sort :=
  (eq_ascending (Finset.sortedLT_sort _).pairwise fun place => by simp).symm

/-- The members of a set, listed in order, are in ascending order. -/
@[simp] theorem ascending_sort (indexes : Finset Nat) : ascending indexes.sort = indexes.sort :=
  ascending_of_pairwise (Finset.sortedLT_sort _).pairwise

/-- The parents of a level's nodes are the nodes of the next level. -/
theorem parentIndexes_sort (places : List Nat) (level : Nat) :
    parentIndexes (nodesAbove places level).sort = (nodesAbove places (level + 1)).sort := by
  -- Both lists ascend, so they are told apart by their members alone.
  refine (eq_ascending (Finset.sortedLT_sort _).pairwise fun index => ?_).symm
  simp [nodesAbove]

/-- The nodes of a level, in a tree of some depth, that are not above the places although their siblings
are. -/
def nodesBeside (depth : Nat) (places : List Nat) (level : Nat) : Finset Nat :=
  (Finset.range (2 ^ (depth - level))).filter fun index =>
    index ^^^ 1 ∈ nodesAbove places level ∧ index ∉ nodesAbove places level

/-- The siblings that a level lacks are the nodes beside those above the places. -/
theorem absentSiblings_sort {depth level : Nat} {places : List Nat}
    (inside : ∀ place ∈ places, place < 2 ^ depth) (within : level < depth) :
    absentSiblings (nodesAbove places level).sort = (nodesBeside depth places level).sort := by
  -- Both lists are strictly ascending, so it is enough to compare their members.
  refine (pairwise_absentSiblings (Finset.sortedLT_sort _).pairwise).eq_of_mem_iff
    (Finset.sortedLT_sort _).pairwise fun index => ?_
  simp only [mem_absentSiblings, Finset.mem_sort, nodesBeside, Finset.mem_filter, Finset.mem_range,
    sibling_eq_xor, iff_and_self, and_imp]
  intro above _
  -- A sibling lies in the tree, as both have a parent in it.
  have below := lt_of_mem_nodesAbove inside within.le above
  rw [← sibling_eq_xor] at below
  have shared := sibling_div_two index
  rw [show depth - level = depth - (level + 1) + 1 by omega, pow_succ] at below ⊢
  omega

/-- The nodes above the places and those beside them are all children of the next level's nodes. -/
theorem append_nodesBeside_perm {depth level : Nat} {places : List Nat}
    (inside : ∀ place ∈ places, place < 2 ^ depth) (within : level < depth) :
    ((nodesAbove places level).sort ++ (nodesBeside depth places level).sort).Perm
      ((nodesAbove places (level + 1)).sort.flatMap childIndexes) := by
  -- Siblings complete a level to all children of its parents.
  have children := append_absentSiblings_perm (nodesAbove places level).sort
  rwa [ascending_sort, parentIndexes_sort, absentSiblings_sort inside within] at children

namespace MerkleTree

variable {hasher : Hasher} (tree : MerkleTree hasher)

/-- Each level of a proof holds the digests of the siblings that the nodes above the leaves lack. -/
theorem absentAbove_eq_map (remaining start : Nat) (places : List Nat) :
    -- The proof goes on with the parents as its places.
    tree.absentAbove remaining start (ascending places) = (List.range remaining).map fun level =>
      (absentSiblings (nodesAbove places level).sort).map (tree.node (start + level)) := by
  induction remaining generalizing start places with
  | zero => rfl
  | succ remaining ih =>
    -- The levels above the first are those of the parents.
    have parents := ih (start + 1) (parentIndexes places)
    rw [ascending_of_pairwise (pairwise_parentIndexes places)] at parents
    rw [absentAbove, parentIndexes_ascending, parents, List.range_succ_eq_map, List.map_cons,
      List.map_map, ascending_eq_sort]
    refine congrArg _ (List.map_congr_left fun level _ => ?_)
    rw [nodesAbove_parentIndexes, Function.comp_apply, Nat.add_right_comm, Nat.add_assoc]

/-- A proof lists level by level the digests of the nodes beside those above its leaves. -/
theorem nodes_of_proveBatch {indexes : List Int} {proof : BatchProof}
    (issued : tree.proveBatch indexes = .ok proof) :
    proof.nodes = (List.range tree.depth).map fun level =>
      (nodesBeside tree.depth (indexes.map Int.toNat) level).sort.map (tree.node level) := by
  -- A proof that is issued holds what is absent above its leaves.
  obtain ⟨names, rfl⟩ := tree.proveBatch_eq_ok_iff.mp issued
  rw [tree.absentAbove_eq_map]
  refine List.map_congr_left fun level within => ?_
  rw [absentSiblings_sort names.place_lt (List.mem_range.mp within), Nat.zero_add]

end MerkleTree

/-- The leaves below a node, from left to right. -/
def leavesBelow (level index : Nat) : List Nat :=
  List.range' (index * 2 ^ level) (2 ^ level)

/-- The leaves below a node are those below its children. -/
theorem leavesBelow_succ (level index : Nat) :
    leavesBelow (level + 1) index = (childIndexes index).flatMap (leavesBelow level) := by
  -- The right child's leaves go on where those of the left child end.
  have right : (2 * index + 1) * 2 ^ level = 2 * index * 2 ^ level + 2 ^ level := Nat.succ_mul ..
  have whole : index * 2 ^ (level + 1) = 2 * index * 2 ^ level := by
    rw [pow_succ, Nat.mul_comm (2 ^ level), ← Nat.mul_assoc, Nat.mul_comm index]
  rw [childIndexes, List.flatMap_cons, List.flatMap_singleton, leavesBelow, leavesBelow, leavesBelow,
    right, whole, List.range'_append_1, pow_succ, Nat.mul_two]

/-- The places and the leaves below what is beside them on the levels so far are the leaves below the next
level. -/
theorem append_leavesBelow_perm {depth level : Nat} {places : List Nat} (distinct : places.Nodup)
    (inside : ∀ place ∈ places, place < 2 ^ depth) (within : level ≤ depth) :
    (places ++ (List.range level).flatMap fun lower =>
        (nodesBeside depth places lower).sort.flatMap (leavesBelow lower)).Perm
      ((nodesAbove places level).sort.flatMap (leavesBelow level)) := by
  induction level with
  | zero =>
    -- Nothing is beside the places yet, and each of the lowest nodes is a leaf.
    have leaves : leavesBelow 0 = fun index => [index] := by
      funext index
      simp [leavesBelow]
    rw [leaves, List.flatMap_singleton', List.range_zero, List.flatMap_nil, List.append_nil, nodesAbove,
      ← ascending_eq_sort]
    exact (ascending_perm distinct).symm
  | succ level ih =>
    -- The leaves below a node are those below its children, which are the nodes of this level.
    rw [List.range_succ, List.flatMap_append, List.flatMap_singleton, ← List.append_assoc]
    refine ((ih (Nat.le_of_succ_le within)).append_right _).trans ?_
    rw [← List.flatMap_append, funext (leavesBelow_succ level), ← List.flatMap_assoc]
    exact (append_nodesBeside_perm inside within).flatMap_right _

/-- A level's nodes and the nodes beside them are twice as many as the nodes of the next level. -/
theorem card_nodesAbove_add {depth level : Nat} {places : List Nat}
    (inside : ∀ place ∈ places, place < 2 ^ depth) (within : level < depth) :
    (nodesAbove places level).card + (nodesBeside depth places level).card
      = 2 * (nodesAbove places (level + 1)).card := by
  -- Every node of the next level has two children.
  have children := (append_nodesBeside_perm inside within).length_eq
  rw [List.length_append, List.length_flatMap] at children
  simpa [childIndexes, Nat.mul_comm] using children

/-- There is a node above the places on every level, and no more nodes than places. -/
theorem card_nodesAbove_mem {places : List Nat} (nonempty : places ≠ []) (level : Nat) :
    0 < (nodesAbove places level).card ∧ (nodesAbove places level).card ≤ places.length := by
  -- The places are the lowest nodes, repeated ones only once.
  induction level with
  | zero =>
    exact ⟨Finset.card_pos.mpr (List.toFinset_nonempty_iff places |>.mpr nonempty),
      List.toFinset_card_le places⟩
  | succ level ih =>
    -- Halving nodes makes no more of them.
    exact ⟨Finset.card_pos.mpr ((Finset.card_pos.mp ih.1).image _), Finset.card_image_le.trans ih.2⟩

/-- No more nodes stand beside those of a level than the level has. -/
theorem card_nodesBeside_le (depth : Nat) (places : List Nat) (level : Nat) :
    (nodesBeside depth places level).card ≤ (nodesAbove places level).card := by
  -- Different nodes have different siblings.
  refine Finset.card_le_card_of_injOn (· ^^^ 1) (fun index beside => ?_) fun index _ other _ same => ?_
  · -- A node beside is a sibling of one above.
    exact (Finset.mem_filter.mp beside).2.1
  · -- Taking the sibling twice leads back.
    simpa using same

/-- The nodes whose digests can be told from those of some leaves and of some other nodes: all of these, and
every node whose children can be told. -/
inductive Told (places : List Nat) (supplied : Nat → Finset Nat) : (level index : Nat) → Prop
  | opened {index : Nat} (listed : index ∈ places) : Told places supplied 0 index
  | supplied {level index : Nat} (listed : index ∈ supplied level) : Told places supplied level index
  | merged {level index : Nat} (left : Told places supplied level (2 * index))
      (right : Told places supplied level (2 * index + 1)) : Told places supplied (level + 1) index

/-- Supplied nodes that stand beside those above the places tell nothing but themselves and the nodes above
the places. -/
theorem Told.above_or_supplied {depth level index : Nat} {places : List Nat}
    {supplied : Nat → Finset Nat} (beside : ∀ level, supplied level ⊆ nodesBeside depth places level)
    (told : Told places supplied level index) :
    index ∈ nodesAbove places level ∨ index ∈ supplied level := by
  induction told with
  | opened listed => exact .inl (List.mem_toFinset.mpr listed)
  | supplied listed => exact .inr listed
  | @merged level index _ _ left right =>
    -- Two siblings are not both supplied, so one of them is above the places.
    refine .inl ?_
    have halved : ∀ child, child / 2 = index → child ∈ nodesAbove places level →
        index ∈ nodesAbove places (level + 1) := fun child parent above =>
      Finset.mem_image.mpr ⟨child, above, parent⟩
    -- The left child decides if it is above, and else its sibling does.
    rcases left with above | listed
    · exact halved _ (by omega) above
    · have sibling := (Finset.mem_filter.mp (beside level listed)).2.1
      rw [Nat.xor_one_of_even (even_two_mul index)] at sibling
      exact halved _ (by omega) sibling

/-- All nodes above the places are told by the nodes beside them. -/
theorem told_of_mem_nodesAbove {depth level index : Nat} {places : List Nat}
    (inside : ∀ place ∈ places, place < 2 ^ depth) (within : level ≤ depth)
    (above : index ∈ nodesAbove places level) :
    Told places (nodesBeside depth places) level index := by
  induction level generalizing index with
  | zero => exact .opened (List.mem_toFinset.mp above)
  | succ level ih =>
    -- One child is above the places, and the other one is too or stands beside it.
    have child : ∀ child ∈ childIndexes index, Told places (nodesBeside depth places) level child := by
      intro child below
      have listed := (append_nodesBeside_perm inside within).mem_iff.mpr
        (List.mem_flatMap.mpr ⟨index, (Finset.mem_sort _).mpr above, below⟩)
      rcases List.mem_append.mp listed with listed | listed
      · -- A child above the places is told by what is below it.
        exact ih (Nat.le_of_succ_le within) ((Finset.mem_sort _).mp listed)
      · -- A child that stands beside has been supplied.
        exact .supplied ((Finset.mem_sort _).mp listed)
    exact .merged (child _ (by simp [childIndexes])) (child _ (by simp [childIndexes]))

/-- Sizes added up along a list are their sum. -/
theorem foldr_add_eq_sum {α : Type} (size : α → Nat) (items : List α) :
    items.foldr (fun item others => size item + others) 0 = (items.map size).sum := by
  induction items with
  | nil => rfl
  | cons item rest ih => rw [List.foldr_cons, ih, List.map_cons, List.sum_cons]

/-- A sum over the first numbers in a list is the sum over their set. -/
theorem sum_map_range (count : Nat) (size : Nat → Nat) :
    -- Lists and sets of numbers are added up in the same order.
    ((List.range count).map size).sum = ∑ index ∈ Finset.range count, size index := by
  rw [Finset.sum_eq_multiset_sum, Finset.range_val, ← Multiset.coe_range, Multiset.map_coe,
    Multiset.sum_coe]

/-- The places and all leaves below what is beside the nodes above them fill the tree. -/
theorem append_flatMap_leavesBelow_perm {depth : Nat} {places : List Nat} (nonempty : places ≠ [])
    (distinct : places.Nodup) (inside : ∀ place ∈ places, place < 2 ^ depth) :
    (places ++ (List.range depth).flatMap fun level =>
        (nodesBeside depth places level).sort.flatMap (leavesBelow level)).Perm
      (List.range (2 ^ depth)) := by
  -- All leaves are below the root.
  have covered := append_leavesBelow_perm distinct inside le_rfl
  rwa [nodesAbove_depth nonempty inside, Finset.sort_singleton, List.flatMap_singleton, leavesBelow,
    Nat.zero_mul, ← List.range_eq_range'] at covered

/-- Fewer nodes than one for each place and level are beside the nodes above the places, unless there is
only one place, or no level. -/
theorem sum_card_nodesBeside {depth : Nat} {places : List Nat} (nonempty : places ≠ [])
    (inside : ∀ place ∈ places, place < 2 ^ depth) :
    ∑ level ∈ Finset.range depth, (nodesBeside depth places level).card ≤ places.length * depth ∧
      (∑ level ∈ Finset.range depth, (nodesBeside depth places level).card = places.length * depth ↔
        places.length = 1 ∨ depth = 0) := by
  -- On every level there are no more nodes beside than places.
  have some := List.length_pos_iff.mpr nonempty
  have each : ∀ level, (nodesBeside depth places level).card ≤ places.length := fun level =>
    (card_nodesBeside_le depth places level).trans (card_nodesAbove_mem nonempty level).2
  cases depth with
  | zero => simp
  | succ height =>
    -- Below the root there are two nodes, at least one of which is above the places.
    have highest : (nodesBeside (height + 1) places height).card ≤ 1 := by
      have both := card_nodesAbove_add inside (Nat.lt_succ_self height)
      have one := (card_nodesAbove_mem nonempty height).1
      rw [nodesAbove_depth nonempty inside, Finset.card_singleton] at both
      omega
    -- Every level below the highest adds one for each place at most.
    have lower : ∑ level ∈ Finset.range height, (nodesBeside (height + 1) places level).card
        ≤ places.length * height := by
      simpa [Nat.mul_comm] using Finset.sum_le_card_nsmul (Finset.range height) _ _ fun level _ => each level
    rw [Finset.sum_range_succ, Nat.mul_succ]
    -- Both a full sum and one of a single place follow from these bounds.
    refine ⟨by omega, fun full => by omega, fun single => ?_⟩
    -- A single place has one node above it and one beside that on every level.
    have only : places.length = 1 := single.resolve_right (Nat.succ_ne_zero height)
    have one : ∀ level ∈ Finset.range (height + 1), (nodesBeside (height + 1) places level).card = 1 := by
      intro level within
      have both := card_nodesAbove_add inside (Finset.mem_range.mp within)
      have here := card_nodesAbove_mem nonempty level
      have next := card_nodesAbove_mem nonempty (level + 1)
      omega
    rw [← Finset.sum_range_succ, Finset.sum_congr rfl one, only]
    simp

/-- A proof that supplies for some leaves of a tree what is needed to tell the root, and nothing else. -/
structure MerkleTree.Minimal {hasher : Hasher} (tree : MerkleTree hasher) (places : List Nat)
    (proof : BatchProof) : Prop where
  /-- Each level lists, in ascending order, the nodes that are not above the leaves while their siblings
  are. -/
  nodes_eq : proof.nodes = (List.range tree.depth).map fun level =>
    (nodesBeside tree.depth places level).sort.map (tree.node level)
  /-- The leaves below the supplied nodes and the opened ones are all leaves, each of them once. -/
  leaves_perm : (places ++ (List.range tree.depth).flatMap fun level =>
    (nodesBeside tree.depth places level).sort.flatMap (leavesBelow level)).Perm
      (List.range (2 ^ tree.depth))
  leaves_count : places.length
    + ∑ level ∈ Finset.range tree.depth, 2 ^ level * (proof.nodes.getD level []).length = 2 ^ tree.depth
  /-- No supplied digest can be told from the opened leaves and the other supplied ones. -/
  not_told : ∀ level, ∀ index ∈ nodesBeside tree.depth places level,
    ¬Told places (fun other => (nodesBeside tree.depth places other).filter
      fun node => (other, node) ≠ (level, index)) level index
  /-- Without any of them missing, the root can be told. -/
  root_told : Told places (nodesBeside tree.depth places) tree.depth 0
  numDigests_le : proof.numDigests ≤ places.length * tree.depth
  numDigests_eq_iff : proof.numDigests = places.length * tree.depth ↔
    places.length = 1 ∨ tree.depth = 0

/-- There are as many digests as nodes beside those above the leaves. -/
theorem numDigests_eq_sum (depth : Int) (height : Nat) (places : List Nat)
    (node : Nat → Nat → Bytes) :
    BatchProof.numDigests ⟨depth, (List.range height).map fun level =>
        (nodesBeside height places level).sort.map (node level)⟩
      = ∑ level ∈ Finset.range height, (nodesBeside height places level).card := by
  rw [BatchProof.numDigests, foldr_add_eq_sum, List.map_map, ← sum_map_range]
  simp [Function.comp_def]

/-- For every selection of leaves of a tree a proof is issued that supplies level by level, in ascending
order, the digests of the nodes that are not above these leaves while their siblings are. The leaves below
them and those selected are all leaves, each of them once; no digest can be told from the others, none is
missing; and there are fewer than one for each leaf and level, unless there is a single leaf or no level. -/
theorem issued_proofs_minimal {hasher : Hasher} (tree : MerkleTree hasher) {indexes : List Int}
    (nonempty : indexes ≠ []) (distinct : indexes.Nodup)
    (inside : ∀ index ∈ indexes, 0 ≤ index ∧ index < 2 ^ tree.depth) :
    ∃ proof, tree.proveBatch indexes = .ok proof ∧ tree.Minimal (indexes.map Int.toNat) proof := by
  -- Leaves that are named once each get a proof.
  have names : NamesLeaves tree.depth indexes := ⟨nonempty, distinct, inside⟩
  obtain ⟨⟨depth, nodes⟩, issued⟩ : ∃ proof, tree.proveBatch indexes = .ok proof :=
    ⟨_, tree.proveBatch_eq_ok_iff.mpr ⟨names, rfl⟩⟩
  obtain rfl := tree.nodes_of_proveBatch issued
  have some : indexes.map Int.toNat ≠ [] := by simpa using nonempty
  have apart := names.nodup_places
  have below := names.place_lt
  -- From here on only the places matter, not the indexes that name them.
  generalize indexes.map Int.toNat = places at *
  have covered := append_flatMap_leavesBelow_perm some apart below
  have counted := sum_card_nodesBeside some below
  refine ⟨_, issued, rfl, covered, ?_, fun level index beside told => ?_, ?_, ?_, ?_⟩
  · -- A node of some level has two to that level leaves below it.
    rw [← List.length_range (n := 2 ^ tree.depth), ← covered.length_eq, List.length_append,
      List.length_flatMap, sum_map_range]
    congr 1
    refine Finset.sum_congr rfl fun level within => ?_
    rw [List.length_flatMap, List.getD_eq_getElem _ _ (by simpa using within)]
    simp [leavesBelow, Nat.mul_comm]
  · -- What is told is above the leaves or supplied, and the node is neither.
    rcases told.above_or_supplied fun _ => Finset.filter_subset _ _ with above | listed
    · exact (Finset.mem_filter.mp beside).2.2 above
    · exact (Finset.mem_filter.mp listed).2 rfl
  · -- The root is above all leaves.
    exact told_of_mem_nodesAbove below le_rfl (by simp [nodesAbove_depth some below])
  · -- Counting digests is counting the nodes beside.
    rw [numDigests_eq_sum]
    exact counted.1
  · rw [numDigests_eq_sum]
    exact counted.2

/-- Three leaves of four need the digest of the fourth, and no other. -/
theorem issued_proofs_minimal_three_of_four :
    ([2, 0, 3] : List Int) ≠ [] ∧ ([2, 0, 3] : List Int).Nodup ∧
      (∀ index ∈ ([2, 0, 3] : List Int), 0 ≤ index ∧ index < 2 ^ fourLeaves.depth) ∧
      ∃ proof, fourLeaves.proveBatch [2, 0, 3] = .ok proof ∧
        proof.nodes = [[Hasher.sha3.digest [1]], []] ∧ fourLeaves.Minimal [2, 0, 3] proof := by
  have inside : ∀ index ∈ ([2, 0, 3] : List Int), 0 ≤ index ∧ index < 2 ^ fourLeaves.depth := by decide
  obtain ⟨proof, issued, minimal⟩ := issued_proofs_minimal fourLeaves (by decide) (by decide) inside
  -- The one digest that is missing is that of the leaf not selected.
  have known : fourLeaves.proveBatch [2, 0, 3] = .ok ⟨2, [[Hasher.sha3.digest [1]], []]⟩ := rfl
  obtain rfl := Except.ok.inj (known.symm.trans issued)
  exact ⟨by decide, by decide, inside, _, issued, rfl, minimal⟩

end Proximity
