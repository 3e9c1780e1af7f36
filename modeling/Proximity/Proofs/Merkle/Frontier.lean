import Mathlib
import Proximity.Merkle.Batch
import Proximity.Proofs.Ascending
import Proximity.Proofs.Merkle.Levels

/-! The nodes known on one level: their parents, and the children that have to be supplied. -/

namespace Proximity

/-- A node and its sibling share their parent. -/
@[simp] theorem sibling_div_two (index : Nat) : sibling index / 2 = index / 2 := by
  -- The sibling is one step to the right of an even index, and to the left of an odd one.
  unfold sibling
  split <;> omega

/-- A sibling's sibling is the node itself. -/
@[simp] theorem sibling_sibling (index : Nat) : sibling (sibling index) = index := by
  unfold sibling
  split <;> split <;> omega

/-- A sibling's index differs in the lowest binary digit. -/
theorem sibling_eq_xor (index : Nat) : sibling index = index ^^^ 1 := by
  -- Flipping the lowest digit adds one to an even index, and takes one from an odd index.
  unfold sibling
  split
  · rename_i even
    exact (Nat.xor_one_of_even (Nat.even_iff.mpr even)).symm
  · rename_i odd
    exact (Nat.xor_one_of_odd (Nat.not_even_iff_odd.mp fun even => odd (Nat.even_iff.mp even))).symm

/-- A parent has no third child. -/
theorem eq_sibling_of_div_two_eq {index other : Nat} (parent : other / 2 = index / 2)
    (different : other ≠ index) : other = sibling index := by
  unfold sibling
  split <;> omega

/-- A node is a parent of others exactly if one of them is its child. -/
@[simp] theorem mem_parentIndexes {parent : Nat} {indexes : List Nat} :
    parent ∈ parentIndexes indexes ↔ ∃ index ∈ indexes, index / 2 = parent := by
  simp only [parentIndexes, mem_ascending, List.mem_map]

/-- Parents are strictly ascending. -/
theorem pairwise_parentIndexes (indexes : List Nat) :
    (parentIndexes indexes).Pairwise (· < ·) :=
  pairwise_ascending _

/-- Only nodes without any index have no parents. -/
@[simp] theorem parentIndexes_eq_nil {indexes : List Nat} :
    parentIndexes indexes = [] ↔ indexes = [] := by
  simp only [parentIndexes, ascending_eq_nil, List.map_eq_nil_iff]

/-- Sorting nodes does not change their parents. -/
@[simp] theorem parentIndexes_ascending (indexes : List Nat) :
    parentIndexes (ascending indexes) = parentIndexes indexes :=
  ascending_congr fun parent => by simp only [List.mem_map, mem_ascending]

/-- The parents of a level's nodes lie within the level above. -/
theorem parentIndexes_lt {indexes : List Nat} {height : Nat}
    (inside : ∀ index ∈ indexes, index < 2 ^ (height + 1)) :
    ∀ parent ∈ parentIndexes indexes, parent < 2 ^ height := by
  -- Halving an index halves the bound.
  intro parent member
  obtain ⟨index, listed, rfl⟩ := mem_parentIndexes.mp member
  have bound := inside index listed
  rw [pow_succ] at bound
  omega

/-- Both children of a node, the left one first. -/
def childIndexes (parent : Nat) : List Nat :=
  [2 * parent, 2 * parent + 1]

/-- The children of a node are the indexes that halve to it. -/
theorem mem_childIndexes {parent child : Nat} : child ∈ childIndexes parent ↔ child / 2 = parent := by
  simp only [childIndexes, List.mem_cons, List.not_mem_nil, or_false]
  omega

/-- The children of ascending nodes are ascending. -/
theorem pairwise_flatMap_childIndexes {parents : List Nat} (sorted : parents.Pairwise (· < ·)) :
    (parents.flatMap childIndexes).Pairwise (· < ·) := by
  -- Children are listed in order under each parent, and parents are in order themselves.
  refine List.pairwise_flatMap.mpr ⟨fun parent _ => by simp [childIndexes], ?_⟩
  refine sorted.imp fun before left leftChild right rightChild => ?_
  have leftParent := mem_childIndexes.mp leftChild
  have rightParent := mem_childIndexes.mp rightChild
  omega

/-- The children of a node that are not known, the left one first. -/
def absentChildren (indexes : List Nat) (parent : Nat) : List Nat :=
  [2 * parent, 2 * parent + 1].filter (· ∉ indexes)

/-- An absent child is a child that is not known. -/
theorem mem_absentChildren {indexes : List Nat} {parent child : Nat} :
    child ∈ absentChildren indexes parent ↔ child / 2 = parent ∧ child ∉ indexes := by
  rw [absentChildren, ← childIndexes, List.mem_filter, mem_childIndexes, decide_eq_true_iff]

/-- What some nodes lack are the siblings of nodes among them that are not there themselves. -/
theorem mem_absentSiblings {indexes : List Nat} {index : Nat} :
    index ∈ absentSiblings indexes ↔ sibling index ∈ indexes ∧ index ∉ indexes := by
  simp only [absentSiblings, List.mem_map, List.mem_filter, List.contains_eq_mem,
    Bool.not_eq_eq_eq_not, Bool.not_true, decide_eq_false_iff_not]
  constructor
  · intro lacking
    obtain ⟨node, ⟨listed, absent⟩, rfl⟩ := lacking
    exact ⟨(sibling_sibling node).symm ▸ listed, absent⟩
  · intro lacking
    exact ⟨sibling index, by simpa using lacking, sibling_sibling index⟩

/-- The siblings that ascending nodes lack are ascending. -/
theorem pairwise_absentSiblings {indexes : List Nat} (sorted : indexes.Pairwise (· < ·)) :
    (absentSiblings indexes).Pairwise (· < ·) := by
  -- Siblings are listed in the order of the nodes that lack them.
  refine List.pairwise_map.mpr ((sorted.filter _).imp_of_mem ?_)
  intro first second firstListed secondListed before
  simp only [List.mem_filter, List.contains_eq_mem, Bool.not_eq_eq_eq_not, Bool.not_true,
    decide_eq_false_iff_not] at firstListed secondListed
  -- Two siblings would not lack each other, so the parents differ as the nodes do.
  have apart : first / 2 ≠ second / 2 := fun shared =>
    firstListed.2 (eq_sibling_of_div_two_eq shared.symm before.ne' ▸ secondListed.1)
  have left := sibling_div_two first
  have right := sibling_div_two second
  omega

/-- The siblings that a level lacks, in the order of the nodes that need them, are the absent
children of its parents in order. -/
theorem absentSiblings_ascending (indexes : List Nat) :
    absentSiblings (ascending indexes)
      = (parentIndexes indexes).flatMap (absentChildren indexes) := by
  -- Both lists are strictly ascending, so it is enough to compare their members.
  refine (pairwise_absentSiblings (pairwise_ascending indexes)).eq_of_mem_iff ?_ fun child => ?_
  · -- Absent children are some of the children of ascending nodes.
    rw [show absentChildren indexes = fun parent => (childIndexes parent).filter (· ∉ indexes) from
      rfl, ← List.filter_flatMap]
    exact (pairwise_flatMap_childIndexes (pairwise_parentIndexes indexes)).filter _
  · simp only [mem_absentSiblings, mem_ascending, List.mem_flatMap, mem_parentIndexes,
      mem_absentChildren]
    constructor
    · intro lacking
      exact ⟨child / 2, ⟨sibling child, lacking.1, sibling_div_two child⟩, rfl, lacking.2⟩
    · intro needed
      obtain ⟨_, ⟨index, listed, rfl⟩, shared, absent⟩ := needed
      -- The known child is not the absent one, so it is the absent one's sibling.
      have different : index ≠ child := fun same => absent (same ▸ listed)
      exact ⟨eq_sibling_of_div_two_eq shared.symm different ▸ listed, absent⟩

/-- Together with the siblings they lack, the nodes of a level are all children of their parents. -/
theorem append_absentSiblings_perm (indexes : List Nat) :
    (ascending indexes ++ absentSiblings (ascending indexes)).Perm
      ((parentIndexes indexes).flatMap childIndexes) := by
  -- Neither list repeats a node, so it is enough to compare their members.
  have apart : (ascending indexes ++ absentSiblings (ascending indexes)).Nodup :=
    (nodup_ascending indexes).append (pairwise_absentSiblings (pairwise_ascending indexes)).nodup
      fun index listed absent => (mem_absentSiblings.mp absent).2 listed
  refine (List.perm_ext_iff_of_nodup apart
    (pairwise_flatMap_childIndexes (pairwise_parentIndexes indexes)).nodup).mpr fun child => ?_
  simp only [List.mem_append, mem_absentSiblings, mem_ascending, List.mem_flatMap,
    mem_parentIndexes, mem_childIndexes]
  constructor
  · intro either
    rcases either with listed | lacking
    · exact ⟨child / 2, ⟨child, listed, rfl⟩, rfl⟩
    · exact ⟨child / 2, ⟨sibling child, lacking.1, sibling_div_two child⟩, rfl⟩
  · intro below
    obtain ⟨_, ⟨index, listed, rfl⟩, shared⟩ := below
    -- A child that is not listed is the sibling of the one that is.
    by_cases present : child ∈ indexes
    · exact .inl present
    · have different : index ≠ child := fun same => present (same ▸ listed)
      exact .inr ⟨eq_sibling_of_div_two_eq shared.symm different ▸ listed, present⟩

end Proximity
