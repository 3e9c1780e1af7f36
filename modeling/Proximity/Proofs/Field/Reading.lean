import Mathlib
import Proximity.Field.Reading
import Proximity.Proofs.Field.Arithmetic
import Proximity.Proofs.Table

/-! What integers are read as: vectors and tables come from lists of least residues, and from nothing else. -/

namespace Proximity

variable {field : PrimeField}

namespace Nested

/-- Only a single integer has no dimension. -/
theorem shape?_eq_nil_iff {nested : Nested} :
    nested.shape? = some [] ↔ ∃ value, nested = .integer value := by
  -- An integer has no dimension, and every list has one.
  match nested with
  | .integer value => simp [shape?]
  | .list [] => simp [shape?]
  | .list (first :: rest) =>
    -- A list has at least the dimension of its own length.
    simp only [shape?, reduceCtorEq, exists_false, iff_false]
    split
    · split <;> simp
    · simp

/-- Only integers have no dimension each. -/
theorem haveShape_nil_iff {items : List Nested} :
    haveShape [] items = true ↔ ∃ values : List Int, items = values.map .integer := by
  induction items with
  | nil => exact iff_of_true (by simp [haveShape]) ⟨[], rfl⟩
  | cons item rest ih =>
    -- The first item is an integer, and so are all others.
    simp only [haveShape, Bool.and_eq_true, beq_iff_eq, shape?_eq_nil_iff, ih]
    constructor
    · intro integers
      obtain ⟨⟨value, rfl⟩, values, rfl⟩ := integers
      exact ⟨value :: values, rfl⟩
    · intro integers
      obtain ⟨values, same⟩ := integers
      obtain ⟨value, others, rfl, rfl, rfl⟩ := List.map_eq_cons_iff.mp same.symm
      exact ⟨⟨value, rfl⟩, others, rfl⟩

/-- Only a flat list of integers has one dimension. -/
theorem shape?_eq_singleton_iff {nested : Nested} {length : Nat} :
    nested.shape? = some [length] ↔
      ∃ values : List Int, nested = .list (values.map .integer) ∧ values.length = length := by
  match nested with
  | .integer value => simp [shape?]
  | .list [] =>
    -- An empty list of integers has the length zero.
    simp only [shape?, Option.some.injEq, List.cons.injEq, and_true, list.injEq]
    constructor
    · intro none
      exact ⟨[], rfl, none⟩
    · intro integers
      obtain ⟨values, none, rfl⟩ := integers
      rw [List.map_eq_nil_iff.mp none.symm, List.length_nil]
  | .list (first :: rest) =>
    constructor
    · -- The items have one shape in common, which has no dimension left.
      intro shaped
      simp only [shape?] at shaped
      split at shaped
      · rename_i inner head
        split at shaped
        · rename_i tail
          simp only [Option.some.injEq, List.cons.injEq] at shaped
          obtain ⟨rfl, rfl⟩ := shaped
          obtain ⟨value, rfl⟩ := shape?_eq_nil_iff.mp head
          obtain ⟨values, rfl⟩ := haveShape_nil_iff.mp tail
          exact ⟨value :: values, rfl, by simp⟩
        · -- Items of different shapes have none in common.
          simp at shaped
      · -- A first item without a shape leaves none for the list.
        simp at shaped
    · -- Integers have no dimension, so the list has one.
      intro integers
      obtain ⟨values, same, rfl⟩ := integers
      obtain ⟨value, others, rfl, rfl, rfl⟩ := List.map_eq_cons_iff.mp (list.inj same).symm
      have flat : haveShape [] (others.map .integer) = true := haveShape_nil_iff.mpr ⟨others, rfl⟩
      simp [shape?, flat]

/-- A flat list is read in order. -/
theorem leaves_flat (values : List Int) : (Nested.list (values.map .integer)).leaves = values := by
  -- The leaves of each item are the integer itself.
  rw [leaves]
  induction values with
  | nil => rfl
  | cons value rest ih => rw [List.map_cons, leavesOf, leaves, ih, List.singleton_append]

end Nested

/-- Least residues of a field whose elements are words are words themselves. -/
theorem isUniform_elements (sized : field.isWordSized) (elements : List (Element field)) :
    isUniform (elements.map fun element => (element.value : Int)) = true := by
  -- A residue is no larger than the square of the largest one.
  have signed : ∀ element : Element field, Word.ofInteger element.value = .signed := by
    intro element
    have below := element.value_lt
    have above := field.one_lt_order
    have square : (field.order - 1) * (field.order - 1) < wordLimit := by
      simpa [PrimeField.isWordSized] using sized
    have root := Nat.le_mul_self (field.order - 1)
    rw [Word.ofInteger, if_pos ⟨by omega, by omega⟩]
  cases elements with
  | nil => rfl
  | cons first rest =>
    -- All residues are of the first one's kind.
    refine List.all_eq_true.mpr fun value member => ?_
    obtain ⟨element, _, rfl⟩ := List.mem_map.mp member
    rw [signed first]
    simp only [Word.holds, signed element, decide_true]

/-- Integers are read as elements exactly if they are the elements' least residues. -/
theorem readElements_eq_ok_iff {values : List Int} {elements : List (Element field)} :
    readElements field values = .ok elements ↔
      values = elements.map fun element => (element.value : Int) := by
  -- One by one, the integers are converted, and the first outside the range is refused.
  have collected : collect Element.ofInt? values = .ok elements ↔
      values = elements.map fun element => (element.value : Int) := by
    rw [collect_eq_ok_iff]
    simp only [Element.ofInt?_eq_ok_iff]
    rw [← List.forall₂_map_right_iff, List.forall₂_eq_eq_eq]
  unfold readElements
  split
  · -- Integers that need words of different kinds are no residues.
    rename_i mixed
    simp only [Bool.and_eq_true, Bool.not_eq_true'] at mixed
    simp only [reduceCtorEq, false_iff]
    intro residues
    simp [residues, isUniform_elements mixed.1] at mixed
  · -- Integers of one kind, or kept one by one, are only converted.
    exact collected

/-- What is read keeps the shape of the lists, and its cells are the elements of the integers in order. -/
theorem shape_cells_of_readTensor {nested : Nested} {tensor : Tensor field}
    (read : readTensor field nested = .ok tensor) :
    nested.shape? = some tensor.shape ∧
      readElements field nested.leaves = .ok tensor.cells.toList := by
  -- Every check that fails ends in a refusal.
  unfold readTensor at read
  split at read
  · -- Lists of different lengths or depths have no shape.
    simp at read
  · rename_i shape shaped
    split at read
    · simp at read
    · split at read
      · simp at read
      · split at read
        · -- An integer that is no residue is refused.
          simp at read
        · rename_i elements listed
          obtain rfl := Except.ok.inj read
          exact ⟨shaped, listed⟩

/-- Lists of few dimensions are read whenever their integers are elements. -/
theorem exists_readTensor {nested : Nested} {shape : List Nat} {elements : List (Element field)}
    (shaped : nested.shape? = some shape) (few : shape.length ≤ mixedDimensionLimit)
    (listed : readElements field nested.leaves = .ok elements) :
    ∃ tensor, readTensor field nested = .ok tensor := by
  -- The lower of the two limits is kept.
  have within : shape.length ≤ dimensionLimit := Nat.le_trans few (by decide)
  unfold readTensor
  split
  · -- The lists have a shape, so they are not refused for lack of one.
    rename_i unshaped
    rw [shaped] at unshaped
    simp at unshaped
  · rename_i found same
    obtain rfl : shape = found := Option.some.inj (shaped.symm.trans same)
    -- Neither of the limits on dimensions is exceeded.
    rw [if_neg (Nat.not_lt.mpr within), if_neg (by simp [Nat.not_lt.mpr few])]
    split
    · -- The integers are elements, so none of them is refused.
      rename_i fault refused
      rw [listed] at refused
      simp at refused
    · exact ⟨_, rfl⟩

/-- Nested lists are read as a vector exactly if they are a flat list of its least residues. -/
theorem exists_readTensor_vector_iff {nested : Nested} {values : Array (Element field)} :
    (∃ tensor, readTensor field nested = .ok tensor ∧ tensor.shape = [values.size] ∧
        tensor.cells = values) ↔
      nested = .list (values.toList.map fun element => .integer element.value) := by
  -- The list of the residues, in one step and in two.
  have flat : (values.toList.map fun element => Nested.integer element.value)
      = (values.toList.map fun element => (element.value : Int)).map .integer := by
    rw [List.map_map]
    rfl
  rw [flat]
  constructor
  · -- A vector has one dimension, so the lists are one list.
    intro vector
    obtain ⟨tensor, read, shape, rfl⟩ := vector
    obtain ⟨shaped, listed⟩ := shape_cells_of_readTensor read
    rw [shape] at shaped
    obtain ⟨integers, rfl, _⟩ := Nested.shape?_eq_singleton_iff.mp shaped
    rw [Nested.leaves_flat, readElements_eq_ok_iff] at listed
    rw [listed]
  · -- The list of residues has one dimension, and its integers are elements.
    intro residues
    subst residues
    have shaped : (Nested.list ((values.toList.map fun element => (element.value : Int)).map
        .integer)).shape? = some [values.size] :=
      Nested.shape?_eq_singleton_iff.mpr ⟨_, rfl, by simp⟩
    have listed : readElements field (Nested.list ((values.toList.map fun element =>
        (element.value : Int)).map .integer)).leaves = .ok values.toList := by
      rw [Nested.leaves_flat, readElements_eq_ok_iff]
    obtain ⟨tensor, read⟩ := exists_readTensor shaped (by simp [mixedDimensionLimit]) listed
    -- Shape and cells are those that were found.
    obtain ⟨sameShape, sameCells⟩ := shape_cells_of_readTensor read
    refine ⟨tensor, read, Option.some.inj (sameShape.symm.trans shaped), ?_⟩
    exact Array.ext' (Except.ok.inj (sameCells.symm.trans listed))

/-- A vector is read exactly from the list of its least residues. -/
theorem readVector_eq_ok_iff {values : List Int} {elements : Array (Element field)} :
    readVector field values = .ok elements ↔
      values = elements.toList.map fun element => (element.value : Int) := by
  -- The elements are read first, and kept as an array.
  rw [readVector, bind_eq_ok_iff]
  simp only [pure_eq_ok, Except.ok.injEq, readElements_eq_ok_iff]
  constructor
  · intro read
    obtain ⟨listed, residues, rfl⟩ := read
    exact residues
  · intro residues
    exact ⟨elements.toList, residues, Array.toArray_toList⟩

namespace Table

/-- The least residues of a table's elements, row by row. -/
def residues (table : Table (Element field)) : List (List Int) :=
  table.rows.map fun row => row.map fun element => (element.value : Int)

/-- A table without rows has a given width; like every array it has no more columns than there are
addresses for. -/
def FillsWidth (table : Table (Element field)) (width : Int) : Prop :=
  table.height = 0 → (table.width : Int) = width ∧ field.hasRoom table.width

instance (table : Table (Element field)) (width : Int) : Decidable (table.FillsWidth width) :=
  inferInstanceAs (Decidable (_ → _))

/-- There is a row of residues for each row. -/
@[simp] theorem length_residues (table : Table (Element field)) :
    table.residues.length = table.height := by
  rw [residues, List.length_map, length_rows]

/-- The rows of residues are as wide as the table. -/
theorem length_of_mem_residues {table : Table (Element field)} {row : List Int}
    (member : row ∈ table.residues) : row.length = table.width := by
  -- Each of them comes from one row.
  obtain ⟨elements, inRows, rfl⟩ := List.mem_map.mp member
  rw [List.length_map, length_of_mem_rows inRows]

/-- The residues one behind the other are those of the cells. -/
theorem flatten_residues (table : Table (Element field)) :
    table.residues.flatten = table.cells.toList.map fun element => (element.value : Int) := by
  -- Taking residues and putting rows together may change places.
  rw [residues, ← List.map_flatten, table.flatten_rows]

end Table

/-- Without rows the table of the given width is read, if there is one. -/
theorem readTable_nil_eq_ok_iff {width : Int} {table : Table (Element field)} :
    readTable field width [] = .ok table ↔
      table.height = 0 ∧ (table.width : Int) = width ∧ field.hasRoom table.width := by
  rw [readTable]
  constructor
  · -- A width is refused if it is negative, or too large for any array.
    intro read
    split at read
    · simp at read
    · rename_i natural
      split at read
      · rename_i room
        obtain rfl := Except.ok.inj read
        exact ⟨rfl, Int.toNat_of_nonneg (Int.not_lt.mp natural), room⟩
      · simp at read
  · -- The table of that width is read.
    intro empty
    obtain ⟨low, rfl, room⟩ := empty
    -- Tables without rows differ in their width alone.
    have same : Table.empty table.width = table := by
      refine Table.ext_rows rfl ?_
      rw [List.eq_nil_iff_length_eq_zero.mpr (table.length_rows.trans low)]
      rfl
    rw [if_neg (Int.not_lt.mpr (Int.natCast_nonneg _)), Int.toNat_natCast, if_pos room, same]

/-- With rows only the table with these residues is read, whatever width is given. -/
theorem readTable_cons_eq_ok_iff {width : Int} {first : List Int} {rest : List (List Int)}
    {table : Table (Element field)} :
    readTable field width (first :: rest) = .ok table ↔ first :: rest = table.residues := by
  rw [readTable]
  constructor
  · intro read
    split at read
    · rename_i even
      split at read
      · simp at read
      · rename_i elements listed
        obtain rfl := Except.ok.inj read
        -- Rows of one width are decided by their values in order.
        refine Table.eq_of_flatten_eq even (fun _ => Table.length_of_mem_residues)
          (by rw [Table.length_residues]) ?_
        rw [Table.flatten_residues, ← readElements_eq_ok_iff]
        exact listed
    · -- Rows of different lengths are refused.
      simp at read
  · intro rows
    -- All rows are as wide as the table, and so as the first of them.
    have wide : first.length = table.width :=
      Table.length_of_mem_residues (rows ▸ List.mem_cons_self)
    have even : ∀ row ∈ first :: rest, row.length = first.length := fun row member =>
      (Table.length_of_mem_residues (rows ▸ member)).trans wide.symm
    have read : readElements field (first :: rest).flatten = .ok table.cells.toList := by
      rw [readElements_eq_ok_iff, rows, table.flatten_residues]
    -- Rows of one width are read as one list.
    rw [dif_pos even]
    split
    · rename_i fault refused
      rw [read] at refused
      simp at refused
    · -- The elements read are those of the cells.
      rename_i elements found
      obtain rfl := Except.ok.inj (read.symm.trans found)
      have high : (first :: rest).length = table.height := by rw [rows, table.length_residues]
      exact congrArg Except.ok (Table.ext high wide Array.toArray_toList)

/-- A table is read exactly from its rows of least residues, if the given width is right without rows. -/
theorem readTable_eq_ok_iff {width : Int} {rows : List (List Int)} {table : Table (Element field)} :
    readTable field width rows = .ok table ↔ rows = table.residues ∧ table.FillsWidth width := by
  -- There is a row of residues unless the table is empty.
  cases rows with
  | nil =>
    have rowless : [] = table.residues ↔ table.height = 0 := by
      rw [← table.length_residues, eq_comm, List.eq_nil_iff_length_eq_zero]
    rw [readTable_nil_eq_ok_iff, rowless, Table.FillsWidth]
    exact and_congr_right fun low => ⟨fun given _ => given, fun fills => fills low⟩
  | cons first rest =>
    rw [readTable_cons_eq_ok_iff, iff_self_and]
    -- A table with residues has rows, so its width is not asked for.
    intro rows low
    have count := congrArg List.length rows
    rw [table.length_residues, low] at count
    simp at count

end Proximity
