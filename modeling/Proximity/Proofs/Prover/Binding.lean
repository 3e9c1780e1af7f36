import Mathlib
import Proximity.Proofs.Merkle.Roots
import Proximity.Proofs.Prover.Commitment

/-! The root of a layer binds the vector that the layer was made from. -/

namespace Proximity

variable {field : PrimeField} {hasher : Hasher}

/-- The tree over the digests of a table's rows. -/
def rowTree (hasher : Hasher) (table : Table (Element field)) : Except Fault (MerkleTree hasher) := do
  let leaves ← hashRows hasher table
  MerkleTree.ofLeaves hasher leaves

/-- The strings hashed for the leaves of a table's tree, and those for the nodes above them. -/
def rowTreeMessages (table : Table (Element field)) (tree : MerkleTree hasher) : List Bytes :=
  table.rows.map rowBytes ++ tree.messages

/-- A power of two of rows has a tree, whose leaves are the digests of the rows. -/
theorem exists_rowTree (hasher : Hasher) {depth : Nat} {table : Table (Element field)}
    (height : table.height = 2 ^ depth) :
    ∃ tree, rowTree hasher table = .ok tree ∧ tree.depth = depth ∧
      tree.leaves = (table.rows.map rowBytes).map hasher.digest := by
  -- Each row becomes one leaf.
  have count : (table.rows.map fun row => hasher.digest (rowBytes row)).length = 2 ^ depth := by
    rw [List.length_map, Table.length_rows, height]
  obtain ⟨tree, built, tall, leaves⟩ := MerkleTree.exists_ofLeaves hasher count
  refine ⟨tree, by rw [rowTree, hashRows_eq_ok, ok_bind, built], tall, ?_⟩
  -- Hashing rows is hashing their bytes.
  rw [leaves, List.map_map]
  rfl

/-- Trees with one root are over the same rows, or what was hashed for them collides. -/
theorem rows_eq_or_collide {table other : Table (Element field)} {tree otherTree : MerkleTree hasher}
    (leaves : tree.leaves = (table.rows.map rowBytes).map hasher.digest)
    (otherLeaves : otherTree.leaves = (other.rows.map rowBytes).map hasher.digest)
    (tall : tree.depth = otherTree.depth) (same : tree.root = otherTree.root) :
    table.rows = other.rows ∨
      hasher.Collide (rowTreeMessages table tree) (rowTreeMessages other otherTree) := by
  -- Leaves that are digests are all of one length.
  have widths : ∀ leaf ∈ tree.leaves, leaf.length = hasher.digestSize := fun leaf member =>
    Hasher.length_of_mem_map_digest (leaves ▸ member)
  have otherWidths : ∀ leaf ∈ otherTree.leaves, leaf.length = hasher.digestSize := fun leaf member =>
    Hasher.length_of_mem_map_digest (otherLeaves ▸ member)
  rcases MerkleTree.leaves_eq_or_collide widths otherWidths tall same with sameLeaves | collide
  · -- The leaves are the same, and so are the rows' bytes, or two of these collide.
    rw [leaves, otherLeaves] at sameLeaves
    rcases Hasher.eq_or_collide_of_map_digest sameLeaves with messages | collide
    · -- Rows are told apart by their bytes.
      exact .inl (List.map_injective_iff.mpr rowBytes_injective messages)
    · -- A collision among the leaves is one of all that is hashed.
      exact .inr (collide.mono (List.subset_append_left ..) (List.subset_append_left ..))
  · -- So is one among the nodes above them.
    exact .inr (collide.mono (List.subset_append_right ..) (List.subset_append_right ..))

/-- A vector is laid out in a power of two of rows, if it has as many values. -/
theorem exists_transposeEvaluations {factor depth : Nat} {values : Array (Element field)}
    (wide : 0 < factor) (size : values.size = 2 ^ depth * factor) :
    ∃ table, transposeEvaluations values factor = .ok table ∧
      splitRows values factor = .ok table ∧ table.height = 2 ^ depth := by
  obtain ⟨table, split⟩ := exists_splitRows_iff.mpr ⟨wide.ne', Dvd.intro_left _ size.symm⟩
  -- There are values, so the width is not too large for them.
  have some : values.size ≠ 0 := by
    rw [size]
    exact (Nat.mul_pos (Nat.two_pow_pos depth) wide).ne'
  -- There are as many cells as values, which leaves the height to divide out.
  have cells := height_mul_width_of_splitRows split
  rw [size] at cells
  exact ⟨table, (transposeEvaluations_eq_splitRows some factor).trans split, split,
    Nat.eq_of_mul_eq_mul_right wide cells⟩

/-- Vectors of one size that fill a power of two of rows have trees over their rows; if the trees have
the same root, then the vectors are equal, or two different strings hashed for them have one digest. -/
theorem root_binds_vector (hasher : Hasher) {factor depth : Nat} {values others : Array (Element field)}
    (wide : 0 < factor) (size : values.size = 2 ^ depth * factor)
    (otherSize : others.size = 2 ^ depth * factor) :
    ∃ table otherTable tree otherTree,
      (transposeEvaluations values factor = .ok table ∧ rowTree hasher table = .ok tree) ∧
      (transposeEvaluations others factor = .ok otherTable ∧
        rowTree hasher otherTable = .ok otherTree) ∧
      (tree.root = otherTree.root →
        values = others ∨
          hasher.Collide (rowTreeMessages table tree) (rowTreeMessages otherTable otherTree)) := by
  -- Both vectors fill a tree of the same depth.
  obtain ⟨table, laidOut, split, height⟩ := exists_transposeEvaluations wide size
  obtain ⟨otherTable, otherLaidOut, otherSplit, otherHeight⟩ :=
    exists_transposeEvaluations wide otherSize
  obtain ⟨tree, built, tall, leaves⟩ := exists_rowTree hasher height
  obtain ⟨otherTree, otherBuilt, otherTall, otherLeaves⟩ := exists_rowTree hasher otherHeight
  refine ⟨table, otherTable, tree, otherTree, ⟨laidOut, built⟩, ⟨otherLaidOut, otherBuilt⟩, ?_⟩
  intro same
  -- A collision is what is claimed, so the rows may be taken to be equal.
  refine (rows_eq_or_collide leaves otherLeaves (tall.trans otherTall.symm) same).imp_left ?_
  intro rows
  -- A vector is read back from its rows.
  obtain ⟨_, cells, width⟩ := splitRows_eq_ok_iff.mp split
  obtain ⟨_, otherCells, otherWidth⟩ := splitRows_eq_ok_iff.mp otherSplit
  rw [← cells, ← otherCells, Table.ext_rows (width.trans otherWidth.symm) rows]

/-- Four values, the first two of which stand in different rows of two. -/
def fourElements : Array (Element seventeen) :=
  ([1, 2, 3, 4].map Element.ofNat).toArray

/-- The same four values in rows that have changed places. -/
def swappedElements : Array (Element seventeen) :=
  ([2, 1, 4, 3].map Element.ofNat).toArray

/-- The sum of all bytes does not tell apart rows that have changed places. -/
theorem root_binds_vector_of_swapped_rows :
    0 < 2 ∧ fourElements.size = 2 ^ 1 * 2 ∧ swappedElements.size = 2 ^ 1 * 2 ∧
      ∃ table otherTable tree otherTree,
        (transposeEvaluations fourElements 2 = .ok table ∧ rowTree checksum table = .ok tree) ∧
        (transposeEvaluations swappedElements 2 = .ok otherTable ∧
          rowTree checksum otherTable = .ok otherTree) ∧
        tree.root = otherTree.root ∧ fourElements ≠ swappedElements ∧
        checksum.Collide (rowTreeMessages table tree) (rowTreeMessages otherTable otherTree) := by
  have size : fourElements.size = 2 ^ 1 * 2 := by decide
  have otherSize : swappedElements.size = 2 ^ 1 * 2 := by decide
  obtain ⟨table, otherTable, tree, otherTree, ⟨laidOut, built⟩, ⟨otherLaidOut, otherBuilt⟩, binds⟩ :=
    root_binds_vector checksum Nat.two_pos size otherSize
  -- All values together sum up to ten on either side.
  have root : (transposeEvaluations fourElements 2 >>= rowTree checksum).map MerkleTree.root
      = .ok [10] := by decide +kernel
  have otherRoot : (transposeEvaluations swappedElements 2 >>= rowTree checksum).map MerkleTree.root
      = .ok [10] := by decide +kernel
  -- The vectors are not equal, which leaves a collision.
  have different : fourElements ≠ swappedElements := by decide
  rw [show (2 : Int) = (2 : Nat) from rfl] at root otherRoot
  rw [laidOut, ok_bind, built] at root
  rw [otherLaidOut, ok_bind, otherBuilt] at otherRoot
  have same : tree.root = otherTree.root := (Except.ok.inj root).trans (Except.ok.inj otherRoot).symm
  exact ⟨Nat.two_pos, size, otherSize, table, otherTable, tree, otherTree, ⟨laidOut, built⟩,
    ⟨otherLaidOut, otherBuilt⟩, same, different, (binds same).resolve_left different⟩

end Proximity
