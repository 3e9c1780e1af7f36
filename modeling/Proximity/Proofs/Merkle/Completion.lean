import Mathlib
import Proximity.Merkle.Verify
import Proximity.Proofs.Merkle.Frontier

/-! One level of a batched proof: completing it is labelling its nodes and their siblings. -/

namespace Proximity

namespace Known

/-- A labelling gives every known node its digest. -/
def Agrees (known : Known) (label : Nat → Bytes) : Prop :=
  ∀ index digest, known.lookup index = some digest → label index = digest

/-- Only an index without a node is not found. -/
theorem lookup_eq_none {known : Known} {index : Nat} :
    known.lookup index = none ↔ index ∉ known.map Prod.fst := by
  -- A search fails if it passes all nodes.
  simp only [List.lookup_eq_none_iff, bne_iff_ne, List.mem_map, not_exists, not_and]
  exact forall₂_congr fun _ _ => ne_comm

/-- A found digest belongs to a known node. -/
theorem mem_of_lookup {known : Known} {index : Nat} {digest : Bytes}
    (found : known.lookup index = some digest) : (index, digest) ∈ known := by
  -- The list splits at the node that was found.
  obtain ⟨before, after, split, _⟩ := List.lookup_eq_some_iff.mp found
  rw [split]
  exact List.mem_append_right before List.mem_cons_self

/-- Only the index of a known node is found. -/
theorem index_mem_of_lookup {known : Known} {index : Nat} {digest : Bytes}
    (found : known.lookup index = some digest) : index ∈ known.map Prod.fst :=
  List.mem_map.mpr ⟨_, mem_of_lookup found, rfl⟩

/-- Every known node's index is found. -/
theorem exists_lookup_of_mem {known : Known} {index : Nat} (listed : index ∈ known.map Prod.fst) :
    ∃ digest, known.lookup index = some digest :=
  Option.ne_none_iff_exists'.mp fun absent => lookup_eq_none.mp absent listed

/-- Among nodes with different indexes every node is found. -/
theorem lookup_of_mem {known : Known} (distinct : (known.map Prod.fst).Nodup) {index : Nat}
    {digest : Bytes} (member : (index, digest) ∈ known) : known.lookup index = some digest := by
  -- A node in front would have to have the same index.
  induction known with
  | nil => simp at member
  | cons first rest ih =>
    simp only [List.map_cons, List.nodup_cons] at distinct
    -- The first node is the one looked for.
    rcases List.mem_cons.mp member with rfl | member
    · exact List.lookup_cons_self
    · -- It comes later, and so the first node has another index.
      have listed : index ∈ rest.map Prod.fst := List.mem_map.mpr ⟨_, member, rfl⟩
      have different : index ≠ first.1 := fun same => distinct.1 (same ▸ listed)
      rw [List.lookup_cons, beq_eq_false_iff_ne.mpr different]
      exact ih distinct.2 member

/-- The nodes at some places, each with its label. -/
def labelled (indexes : List Nat) (label : Nat → Bytes) : Known :=
  indexes.map fun index => (index, label index)

/-- Labelled nodes are at the places that were labelled. -/
@[simp] theorem map_fst_labelled (indexes : List Nat) (label : Nat → Bytes) :
    (labelled indexes label).map Prod.fst = indexes := by
  simp [labelled, Function.comp_def]

/-- Labelled nodes agree with every labelling that is the same at their places. -/
theorem agrees_labelled {indexes : List Nat} {label other : Nat → Bytes}
    (same : ∀ index ∈ indexes, other index = label index) : (labelled indexes label).Agrees other := by
  intro index digest found
  -- What is found was labelled at its own place.
  obtain ⟨_, listed, pair⟩ := List.mem_map.mp (mem_of_lookup found)
  obtain ⟨rfl, rfl⟩ := Prod.mk.inj pair
  exact same _ listed

/-- A labelling with new labels for the two children of a parent. -/
def relabel (label : Nat → Bytes) (parent : Nat) (left right : Bytes) (index : Nat) : Bytes :=
  if index = 2 * parent then left else if index = 2 * parent + 1 then right else label index

/-- The left child has the first new label. -/
@[simp] theorem relabel_left (label : Nat → Bytes) (parent : Nat) (left right : Bytes) :
    relabel label parent left right (2 * parent) = left := by
  simp [relabel]

/-- The right child has the second new label. -/
@[simp] theorem relabel_right (label : Nat → Bytes) (parent : Nat) (left right : Bytes) :
    relabel label parent left right (2 * parent + 1) = right := by
  simp [relabel]

/-- The children of other parents keep their labels. -/
theorem relabel_of_ne {label : Nat → Bytes} {parent index : Nat} {left right : Bytes}
    (different : index / 2 ≠ parent) : relabel label parent left right index = label index := by
  have notLeft : index ≠ 2 * parent := by omega
  have notRight : index ≠ 2 * parent + 1 := by omega
  simp [relabel, notLeft, notRight]

/-- A labelling still agrees with the known nodes if the new labels do. -/
theorem Agrees.relabel {known : Known} {label : Nat → Bytes} (agrees : known.Agrees label)
    {parent : Nat} {left right : Bytes}
    (leftKnown : ∀ digest, known.lookup (2 * parent) = some digest → left = digest)
    (rightKnown : ∀ digest, known.lookup (2 * parent + 1) = some digest → right = digest) :
    known.Agrees (relabel label parent left right) := by
  intro index digest found
  -- Only the two children have been relabelled.
  by_cases isLeft : index = 2 * parent
  · subst isLeft
    rw [relabel_left]
    exact leftKnown digest found
  · by_cases isRight : index = 2 * parent + 1
    · subst isRight
      rw [relabel_right]
      exact rightKnown digest found
    · -- No other index has the parent above it.
      rw [relabel_of_ne (by omega)]
      exact agrees index digest found

/-- Both children of a parent are found if one of them is known and the other one known or supplied. -/
theorem children?_eq_some_iff {known : Known} {parent : Nat} {supplied rest : List Bytes}
    {left right : Bytes} :
    known.children? parent supplied = some (left, right, rest) ↔
      (∃ index ∈ known.map Prod.fst, index / 2 = parent) ∧
      (∀ digest, known.lookup (2 * parent) = some digest → left = digest) ∧
      (∀ digest, known.lookup (2 * parent + 1) = some digest → right = digest) ∧
      supplied = (absentChildren (known.map Prod.fst) parent).map
        (fun child => if child = 2 * parent then left else right) ++ rest := by
  -- A parent has a known child exactly if one of the two is found.
  have someKnown : (∃ index ∈ known.map Prod.fst, index / 2 = parent) ↔
      ¬(known.lookup (2 * parent) = none ∧ known.lookup (2 * parent + 1) = none) := by
    rw [lookup_eq_none, lookup_eq_none, not_and_or, not_not, not_not]
    constructor
    · intro named
      obtain ⟨index, listed, rfl⟩ := named
      -- The known child is the left one if its index is even.
      rcases Nat.mod_two_eq_zero_or_one index with even | odd
      · have whole : 2 * (index / 2) = index := by omega
        exact Or.inl (whole.symm ▸ listed)
      · have whole : 2 * (index / 2) + 1 = index := by omega
        exact Or.inr (whole.symm ▸ listed)
    · intro known
      rcases known with listed | listed
      · -- Either child has the parent as its half.
        exact ⟨_, listed, by omega⟩
      · exact ⟨_, listed, by omega⟩
  -- What is absent is the child that is not found.
  have absent : absentChildren (known.map Prod.fst) parent =
      (if known.lookup (2 * parent) = none then [2 * parent] else [])
        ++ (if known.lookup (2 * parent + 1) = none then [2 * parent + 1] else []) := by
    simp only [absentChildren, lookup_eq_none]
    by_cases leftKnown : 2 * parent ∈ known.map Prod.fst <;>
      by_cases rightKnown : 2 * parent + 1 ∈ known.map Prod.fst <;>
        simp [leftKnown, rightKnown]
  -- What is left is the search for both children, case by case.
  rw [someKnown, absent]
  unfold children?
  -- Each child is known or not, and something is supplied or not.
  cases leftFound : known.lookup (2 * parent) <;>
    cases rightFound : known.lookup (2 * parent + 1) <;>
      cases supplied <;> simp [eq_comm, and_left_comm]

/-- A labelled node is found with its label. -/
theorem lookup_labelled {indexes : List Nat} {index : Nat} (listed : index ∈ indexes)
    (label : Nat → Bytes) : (labelled indexes label).lookup index = some (label index) := by
  -- Something is found at the place, and it is the label.
  obtain ⟨digest, found⟩ := exists_lookup_of_mem (by rwa [map_fst_labelled indexes label])
  rw [found, agrees_labelled (fun _ _ => rfl) index digest found]

/-- A parent with a known child takes its own absent children and leaves what is supplied behind. -/
theorem children?_of_agrees {known : Known} {label : Nat → Bytes} (agrees : known.Agrees label)
    {parent : Nat} (someKnown : ∃ index ∈ known.map Prod.fst, index / 2 = parent)
    (rest : List Bytes) :
    known.children? parent ((absentChildren (known.map Prod.fst) parent).map label ++ rest)
      = some (label (2 * parent), label (2 * parent + 1), rest) := by
  -- The labels agree with what is known, and what is supplied are those of the others.
  refine children?_eq_some_iff.mpr ⟨someKnown, agrees _, agrees _, ?_⟩
  congr 1
  -- An absent child is the left one or the right one, and labelled as such.
  apply List.map_congr_left
  intro child member
  have childOf := (mem_absentChildren.mp member).1
  split
  · rename_i isLeft
    rw [isLeft]
  · congr 1
    omega

end Known

namespace Hasher

/-- The labels of the level above. -/
def mergeLabels (hasher : Hasher) (label : Nat → Bytes) (parent : Nat) : Bytes :=
  hasher.merge (label (2 * parent)) (label (2 * parent + 1))

variable {hasher : Hasher}

/-- Merging the children of some parents succeeds if a labelling that agrees with the known nodes
also says what is supplied for the others. -/
theorem mergeKnown_of_agrees {known : Known} {label : Nat → Bytes} (agrees : known.Agrees label)
    {parents : List Nat}
    (someKnown : ∀ parent ∈ parents, ∃ index ∈ known.map Prod.fst, index / 2 = parent)
    (unused : List Bytes) :
    hasher.mergeKnown known parents
        ((parents.flatMap (absentChildren (known.map Prod.fst))).map label ++ unused)
      = some (Known.labelled parents (hasher.mergeLabels label), unused) := by
  -- Every parent takes what it lacks from the front and leaves the rest to those behind it.
  induction parents with
  | nil => rfl
  | cons parent rest ih =>
    -- The first parent's children are labelled, as far as they are not known.
    have tail := ih fun other member => someKnown other (List.mem_cons_of_mem parent member)
    have taken := Known.children?_of_agrees agrees (someKnown parent List.mem_cons_self)
      ((rest.flatMap (absentChildren (known.map Prod.fst))).map label ++ unused)
    rw [List.flatMap_cons, List.map_append, List.append_assoc]
    simp only [mergeKnown, taken, Option.bind_eq_bind, Option.bind_some, tail, Option.pure_def]
    rfl

/-- Only a labelling that agrees with the known nodes and with what is supplied lets all children be
merged. -/
theorem exists_agrees_of_mergeKnown {known above : Known} {parents : List Nat}
    (distinct : parents.Nodup) {supplied unused : List Bytes}
    (merged : hasher.mergeKnown known parents supplied = some (above, unused)) :
    ∃ label : Nat → Bytes, known.Agrees label ∧
      supplied = (parents.flatMap (absentChildren (known.map Prod.fst))).map label ++ unused ∧
      above = Known.labelled parents (hasher.mergeLabels label) := by
  induction parents generalizing supplied above with
  | nil =>
    simp only [mergeKnown, Option.some.injEq, Prod.mk.injEq] at merged
    -- Nothing is taken, so any labelling of the known nodes will do.
    refine ⟨fun index => (known.lookup index).getD [], fun index digest found => ?_, ?_, ?_⟩
    · simp [found]
    · simp [merged.2]
    · exact merged.1.symm
  | cons parent rest ih =>
    -- The parents behind the first are labelled first.
    obtain ⟨fresh, distinctRest⟩ := List.nodup_cons.mp distinct
    simp only [mergeKnown, Option.bind_eq_bind, Option.bind_eq_some_iff, Option.pure_def,
      Option.some.injEq, Prod.mk.injEq, Prod.exists] at merged
    obtain ⟨left, right, remaining, found, others, _, tail, rfl, rfl⟩ := merged
    obtain ⟨_, leftKnown, rightKnown, rfl⟩ := Known.children?_eq_some_iff.mp found
    obtain ⟨label, agrees, rfl, rfl⟩ := ih distinctRest tail
    -- The labelling of the rest gets new labels for the children that were just merged.
    refine ⟨Known.relabel label parent left right, agrees.relabel leftKnown rightKnown, ?_, ?_⟩
    · rw [List.flatMap_cons, List.map_append, List.append_assoc]
      congr 1
      · -- What the parent took is labelled anew.
        apply List.map_congr_left
        intro child member
        have childOf := (mem_absentChildren.mp member).1
        split
        · rename_i isLeft
          rw [isLeft, Known.relabel_left]
        · rename_i notLeft
          rw [show child = 2 * parent + 1 by omega, Known.relabel_right]
      · -- What the other parents took is not, as no parent is listed twice.
        congr 1
        apply List.map_congr_left
        intro child member
        obtain ⟨other, listed, absent⟩ := List.mem_flatMap.mp member
        have parentOf := (mem_absentChildren.mp absent).1
        have different : child / 2 ≠ parent := fun same => fresh (same ▸ parentOf ▸ listed)
        exact (Known.relabel_of_ne different).symm
    · -- The digests above are made of the new labels for this parent, and of the old ones for the others.
      simp only [Known.labelled, List.map_cons, mergeLabels, Known.relabel_left,
        Known.relabel_right]
      congr 1
      apply List.map_congr_left
      intro other listed
      have different : other ≠ parent := fun same => fresh (same ▸ listed)
      rw [Known.relabel_of_ne (by omega), Known.relabel_of_ne (by omega)]

/-- A level is completed exactly by the labels of the siblings it lacks, in order. -/
theorem mergeKnown_parentIndexes_iff {known above : Known} {supplied : List Bytes} :
    hasher.mergeKnown known (parentIndexes (known.map Prod.fst)) supplied = some (above, []) ↔
      ∃ label : Nat → Bytes, known.Agrees label ∧
        supplied = (absentSiblings (ascending (known.map Prod.fst))).map label ∧
        above = Known.labelled (parentIndexes (known.map Prod.fst)) (hasher.mergeLabels label) := by
  rw [absentSiblings_ascending]
  constructor
  · intro merged
    -- Parents are strictly ascending, so none of them is merged twice.
    simpa using exists_agrees_of_mergeKnown (pairwise_parentIndexes _).nodup merged
  · intro labelling
    obtain ⟨label, agrees, rfl, rfl⟩ := labelling
    have merged : hasher.mergeKnown known (parentIndexes (known.map Prod.fst)) _ = some (_, []) :=
      mergeKnown_of_agrees agrees (fun parent member => mem_parentIndexes.mp member) []
    simpa using merged

/-- All levels are completed if the lowest one is, without a sibling left over, and the others are. -/
theorem mergeLevels_cons_eq_some_iff {known top : Known} {supplied : List Bytes}
    {levels : List (List Bytes)} :
    hasher.mergeLevels known (supplied :: levels) = some top ↔
      ∃ above, hasher.mergeKnown known (parentIndexes (known.map Prod.fst)) supplied
        = some (above, []) ∧ hasher.mergeLevels above levels = some top := by
  rw [mergeLevels]
  -- A level lacks a sibling, has one left over, or is completed.
  cases hasher.mergeKnown known (parentIndexes (known.map Prod.fst)) supplied with
  | none => simp
  | some result =>
    obtain ⟨above, unused⟩ := result
    cases unused with
    | nil => simp
    | cons extra unused => simp

/-- Merged nodes are the parents of the known ones. -/
theorem map_fst_of_mergeKnown {known above : Known} {supplied : List Bytes}
    (merged : hasher.mergeKnown known (parentIndexes (known.map Prod.fst)) supplied
      = some (above, [])) : above.map Prod.fst = parentIndexes (known.map Prod.fst) := by
  obtain ⟨label, _, _, rfl⟩ := mergeKnown_parentIndexes_iff.mp merged
  exact Known.map_fst_labelled _ _

/-- Merged nodes have the digest's size. -/
theorem length_of_mergeKnown {known above : Known} {supplied : List Bytes}
    (merged : hasher.mergeKnown known (parentIndexes (known.map Prod.fst)) supplied
      = some (above, [])) (parent : Nat) (digest : Bytes)
    (found : above.lookup parent = some digest) : digest.length = hasher.digestSize := by
  obtain ⟨label, _, _, rfl⟩ := mergeKnown_parentIndexes_iff.mp merged
  -- Whatever is found above is a digest of two labels.
  obtain ⟨_, _, pair⟩ := List.mem_map.mp (Known.mem_of_lookup found)
  obtain ⟨rfl, rfl⟩ := Prod.mk.inj pair
  exact hasher.length_digest _

end Hasher

end Proximity
