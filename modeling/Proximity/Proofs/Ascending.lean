import Mathlib
import Proximity.Ascending

/-! Strictly ascending lists are finite sets: their members decide them. -/

namespace Proximity

variable {α : Type} [LT α] [DecidableLT α] [DecidableEq α]

/-- Insertion adds one member. -/
@[simp] theorem mem_insertAscending {value other : α} {values : List α} :
    other ∈ insertAscending value values ↔ other = value ∨ other ∈ values := by
  -- A value that is there already is the only one that is not added.
  induction values with
  | nil => simp [insertAscending]
  | cons first rest ih =>
    simp only [insertAscending]
    split
    · simp
    · split
      · rename_i same
        simp [same]
      · simp only [List.mem_cons, ih]
        exact or_left_comm

/-- The distinct values of a list are its values. -/
@[simp] theorem mem_ascending {value : α} {values : List α} :
    value ∈ ascending values ↔ value ∈ values := by
  -- The values are inserted one by one, the last one first.
  induction values with
  | nil => simp [ascending]
  | cons first rest ih =>
    rw [show ascending (first :: rest) = insertAscending first (ascending rest) from rfl]
    simp [ih]

/-- Only the empty list has no distinct values. -/
@[simp] theorem ascending_eq_nil {values : List α} : ascending values = [] ↔ values = [] := by
  -- A list is empty if it has no members, and both have the same ones.
  simp only [List.eq_nil_iff_forall_not_mem, mem_ascending]

variable [IsStrictTotalOrder α (· < ·)]

/-- Insertion keeps a list strictly ascending. -/
theorem pairwise_insertAscending {value : α} {values : List α}
    (sorted : values.Pairwise (· < ·)) : (insertAscending value values).Pairwise (· < ·) := by
  -- The new value goes in front of the first one that exceeds it.
  induction values with
  | nil => simp [insertAscending]
  | cons first rest ih =>
    obtain ⟨least, tail⟩ := List.pairwise_cons.mp sorted
    simp only [insertAscending]
    split
    · rename_i below
      refine List.pairwise_cons.mpr ⟨fun other member => ?_, sorted⟩
      rcases List.mem_cons.mp member with rfl | member
      · -- The new value is the least of all.
        exact below
      · exact IsTrans.trans _ _ _ below (least other member)
    · rename_i notBelow
      split
      · exact sorted
      · rename_i different
        -- The new value is larger than the first one, and takes its place among the rest.
        have above : first < value :=
          ((trichotomous_of (· < ·) value first).resolve_left notBelow).resolve_left different
        refine List.pairwise_cons.mpr ⟨fun other member => ?_, ih tail⟩
        rcases mem_insertAscending.mp member with rfl | member
        · exact above
        · exact least other member

/-- The distinct values of a list are strictly ascending. -/
theorem pairwise_ascending (values : List α) : (ascending values).Pairwise (· < ·) := by
  -- Inserting keeps the order, starting from no value at all.
  induction values with
  | nil => exact List.Pairwise.nil
  | cons first rest ih => exact pairwise_insertAscending ih

/-- No value is listed twice. -/
theorem nodup_ascending (values : List α) : (ascending values).Nodup :=
  (pairwise_ascending values).nodup

/-- A strictly ascending list is decided by its members. -/
theorem eq_ascending {sorted values : List α} (pairwise : sorted.Pairwise (· < ·))
    (members : ∀ value, value ∈ sorted ↔ value ∈ values) : sorted = ascending values :=
  pairwise.eq_of_mem_iff (pairwise_ascending values) fun value =>
    (members value).trans mem_ascending.symm

/-- Lists with the same members have the same distinct values. -/
theorem ascending_congr {left right : List α} (members : ∀ value, value ∈ left ↔ value ∈ right) :
    ascending left = ascending right :=
  eq_ascending (pairwise_ascending left) fun value => mem_ascending.trans (members value)

/-- A strictly ascending list consists of its distinct values. -/
theorem ascending_of_pairwise {values : List α} (sorted : values.Pairwise (· < ·)) :
    ascending values = values :=
  (eq_ascending sorted fun _ => Iff.rfl).symm

/-- Sorting reorders a list without repetition. -/
theorem ascending_perm {values : List α} (distinct : values.Nodup) :
    (ascending values).Perm values :=
  (List.perm_ext_iff_of_nodup (nodup_ascending values) distinct).mpr fun _ => mem_ascending

/-- A list keeps its length exactly if it repeats nothing. -/
theorem length_ascending_eq_iff {values : List α} :
    (ascending values).length = values.length ↔ values.Nodup := by
  constructor
  · intro same
    -- As many distinct values as there are values at all leave no room for a repetition.
    have listed : ascending values ⊆ values := fun _ => mem_ascending.mp
    exact ((List.subperm_of_subset (nodup_ascending values) listed).perm_of_length_le
      same.ge).nodup_iff.mp (nodup_ascending values)
  · -- Without a repetition sorting only reorders.
    exact fun distinct => (ascending_perm distinct).length_eq

end Proximity
