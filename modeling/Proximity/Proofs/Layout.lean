import Mathlib
import Proximity.Field.Catalogue
import Proximity.Layout
import Proximity.Proofs.Table

/-! A vector laid out in rows keeps all of its values, and gives them back in natural order. -/

namespace Proximity

variable {α : Type} {values : Array α} {width : Nat} {table : Table α}

/-- Only whole rows are cut out of a vector, and the columns are consecutive runs of it. -/
theorem splitRows_eq_ok_iff :
    splitRows values width = .ok table ↔
      width ≠ 0 ∧ table.transpose.cells = values ∧ table.width = width := by
  unfold splitRows
  constructor
  · intro split
    split at split
    · -- A width of zero is refused first.
      simp at split
    · rename_i wide
      split at split
      · -- The runs are the rows of a table that is transposed.
        rename_i runs found
        obtain rfl := Except.ok.inj split
        obtain ⟨_, cells, height⟩ := Table.ofHeight?_eq_some_iff.mp found
        exact ⟨wide, by rw [runs.transpose_transpose, cells], height⟩
      · -- Runs that do not fill the columns are refused.
        simp at split
  · -- The runs are the columns, and exchanging rows and columns twice changes nothing.
    rintro ⟨wide, cells, same⟩
    have runs : Table.ofHeight? values width = some table.transpose :=
      Table.ofHeight?_eq_some_iff.mpr ⟨wide, cells, same⟩
    rw [if_neg wide, runs]
    exact congrArg Except.ok table.transpose_transpose

/-- Together the rows have as many values as the vector. -/
theorem height_mul_width_of_splitRows (split : splitRows values width = .ok table) :
    table.height * width = values.size := by
  -- The transposed table has as many cells as the table.
  obtain ⟨_, rfl, rfl⟩ := splitRows_eq_ok_iff.mp split
  rw [table.transpose.size_cells]
  exact Nat.mul_comm ..

/-- A vector has rows of every width that divides its length. -/
theorem exists_splitRows_iff :
    (∃ table, splitRows values width = .ok table) ↔ width ≠ 0 ∧ width ∣ values.size := by
  constructor
  · -- The rows that are there show the length as a multiple.
    intro cut
    obtain ⟨table, split⟩ := cut
    exact ⟨(splitRows_eq_ok_iff.mp split).1,
      Dvd.intro_left table.height (height_mul_width_of_splitRows split)⟩
  · -- Runs of the vector, one for each column, are the rows transposed.
    intro even
    obtain ⟨wide, divides⟩ := even
    let runs : Table α := ⟨width, values.size / width, values, (Nat.mul_div_cancel' divides).symm⟩
    exact ⟨runs.transpose, splitRows_eq_ok_iff.mpr ⟨wide, by rw [runs.transpose_transpose], rfl⟩⟩

/-- A width that there is room for is laid out in whole rows. -/
theorem transposeEvaluations_of_room {field : PrimeField} {values : Array (Element field)} {width : Nat}
    (room : values.size = 0 → field.hasRoom width) :
    transposeEvaluations values width = splitRows values width :=
  -- Only without values, and without room for a row, is a request refused before the rows are cut.
  if_neg fun crowded => by simp [room crowded.1] at crowded

/-- Some values are laid out in whole rows of any width. -/
theorem transposeEvaluations_eq_splitRows {field : PrimeField} {values : Array (Element field)}
    (some : values.size ≠ 0) (width : Nat) :
    transposeEvaluations values width = splitRows values width :=
  transposeEvaluations_of_room fun none => absurd none some

/-- A width that there is room for is read as whole rows. -/
theorem untransposeEvaluations_of_room {field : PrimeField} {values : Array (Element field)} {width : Nat}
    (room : values.size = 0 → field.hasRoom width) :
    untransposeEvaluations values width = joinRows values width :=
  if_neg fun crowded => by simp [room crowded.1] at crowded

/-- Without values, a width that there is no room for is refused both ways. -/
theorem transposeEvaluations_eq_error {field : PrimeField} {values : Array (Element field)} {width : Nat}
    (none : values.size = 0) (crowded : ¬field.hasRoom width) :
    transposeEvaluations values width = .error .oversized ∧
      untransposeEvaluations values width = .error .oversized :=
  ⟨if_pos ⟨none, by simpa using crowded⟩, if_pos ⟨none, by simpa using crowded⟩⟩

/-- Row `i` holds the values at `i`, `i + rows`, `i + 2 rows` and so on. -/
theorem value?_of_splitRows (split : splitRows values width = .ok table) {row column : Nat}
    (inRow : row < table.height) (inColumn : column < width) :
    table.value? row column = values[row + column * table.height]? := by
  -- The vector is what the columns are, one behind the other.
  obtain ⟨_, rfl, rfl⟩ := splitRows_eq_ok_iff.mp split
  -- A cell is counted through the columns, each of them as long as the table is high.
  have inside : row + column * table.height < table.width * table.height := by
    rw [Nat.add_comm]
    exact Table.cell_lt inColumn inRow
  rw [table.transpose.getElem?_cells inside, Table.value?_transpose]
  -- In the transposed table the row is the remainder and the column the quotient.
  have rowIs : (row + column * table.height) % table.height = row := by
    rw [Nat.add_mul_mod_self_right, Nat.mod_eq_of_lt inRow]
  have columnIs : (row + column * table.height) / table.height = column := by
    rw [Nat.add_mul_div_right _ _ (Nat.zero_lt_of_lt inRow), Nat.div_eq_of_lt inRow, Nat.zero_add]
  show table.value? row column = table.value? (_ % table.height) (_ / table.height)
  rw [rowIs, columnIs]

/-- The rows hold the values of the vector, in another order. -/
theorem cells_perm_of_splitRows (split : splitRows values width = .ok table) :
    table.cells.toList.Perm values.toList := by
  -- The vector is the cells of the transposed table.
  obtain ⟨_, rfl, _⟩ := splitRows_eq_ok_iff.mp split
  exact table.cells_transpose_perm.symm

/-- Rows that are written one behind the other lead to the vector that they can be cut out of. -/
theorem joinRows_eq_ok_iff {joined : Array α} :
    joinRows values width = .ok joined ↔
      ∃ table, splitRows joined width = .ok table ∧ table.cells = values := by
  simp only [splitRows_eq_ok_iff]
  constructor
  · -- Only cells that fill rows of the width are read column by column.
    intro ok
    unfold joinRows at ok
    split at ok
    · -- Again a width of zero is refused first.
      simp at ok
    · rename_i wide
      split at ok
      · -- The rows are those that the cells are cut into.
        rename_i table cut
        obtain ⟨_, cells, same⟩ := Table.ofWidth?_eq_some_iff.mp cut
        exact ⟨table, ⟨wide, Except.ok.inj ok, same⟩, cells⟩
      · -- Cells that fill no rows are refused.
        simp at ok
  · -- The cells are cut into the same rows again.
    rintro ⟨table, ⟨wide, rfl, same⟩, cells⟩
    rw [joinRows, if_neg wide, Table.ofWidth?_eq_some_iff.mpr ⟨wide, cells, same⟩]

/-- The natural order has as many values as there are in the rows. -/
theorem size_joinRows {joined : Array α} (ok : joinRows values width = .ok joined) :
    joined.size = values.size := by
  -- The vector that is read has the cells as its own, in another order.
  obtain ⟨table, split, rfl⟩ := joinRows_eq_ok_iff.mp ok
  exact (cells_perm_of_splitRows split).length_eq.symm

/-- Rows that are written one behind the other lead back to the vector they were cut out of. -/
theorem joinRows_of_splitRows (split : splitRows values width = .ok table) :
    joinRows table.cells width = .ok values :=
  joinRows_eq_ok_iff.mpr ⟨table, split, rfl⟩

/-- Values are read as rows of every width that divides their number. -/
theorem exists_joinRows (wide : width ≠ 0) (divides : width ∣ values.size) :
    ∃ joined, joinRows values width = .ok joined := by
  -- The cells as rows of the width are the table to read.
  let table : Table α := ⟨values.size / width, width, values, (Nat.div_mul_cancel divides).symm⟩
  exact ⟨table.transpose.cells,
    joinRows_eq_ok_iff.mpr ⟨table, splitRows_eq_ok_iff.mpr ⟨wide, rfl, rfl⟩, rfl⟩⟩

/-- For every width that divides the number of values, laying them out in rows and reading rows back in
natural order undo each other: row `i` holds the values at `i`, `i + rows`, `i + 2 rows` and so on, both
ways keep every value as often as it is there, and one way after the other, in either order, leads back to
the vector. Only where there are no values can the width exceed what has addresses; then both ways are
refused. -/
theorem layout_undone_both_ways {field : PrimeField} {values : Array (Element field)} {width : Nat}
    (wide : 1 ≤ width) (divides : width ∣ values.size) :
    (values.size = 0 ∧ ¬field.hasRoom width →
        transposeEvaluations values width = .error .oversized ∧
          untransposeEvaluations values width = .error .oversized) ∧
      ((values.size = 0 → field.hasRoom width) →
        (∃ table, transposeEvaluations values width = .ok table ∧
          table.height = values.size / width ∧ table.width = width ∧
          (∀ row < values.size / width, ∀ column < width,
            table.value? row column = values[row + column * (values.size / width)]?) ∧
          table.cells.toList.Perm values.toList ∧
          untransposeEvaluations table.cells width = .ok values) ∧
        ∃ joined table, untransposeEvaluations values width = .ok joined ∧
          joined.toList.Perm values.toList ∧
          transposeEvaluations joined width = .ok table ∧ table.cells = values) := by
  have some : width ≠ 0 := Nat.one_le_iff_ne_zero.mp wide
  refine ⟨fun crowded => transposeEvaluations_eq_error crowded.1 crowded.2, fun room => ⟨?_, ?_⟩⟩
  · -- From the vector to its rows and back.
    obtain ⟨table, split⟩ := exists_splitRows_iff.mpr ⟨some, divides⟩
    have height : table.height = values.size / width := by
      rw [← height_mul_width_of_splitRows split, Nat.mul_div_cancel _ wide]
    have listed := cells_perm_of_splitRows split
    have size : table.cells.size = values.size := listed.length_eq
    refine ⟨table, (transposeEvaluations_of_room room).trans split, height,
      (splitRows_eq_ok_iff.mp split).2.2, fun row inRow column inColumn => ?_, listed, ?_⟩
    · -- Each row stands in the table as the vector was cut.
      rw [value?_of_splitRows split (height.symm ▸ inRow) inColumn, height]
    · -- The rows hold as many values, so there is as much room for them.
      rw [untransposeEvaluations_of_room (size.symm ▸ room), joinRows_of_splitRows split]
  · -- From rows to their natural order and back.
    obtain ⟨joined, ok⟩ := exists_joinRows some divides
    obtain ⟨table, split, rfl⟩ := joinRows_eq_ok_iff.mp ok
    refine ⟨joined, table, (untransposeEvaluations_of_room room).trans ok,
      (cells_perm_of_splitRows split).symm, ?_, rfl⟩
    -- What is read has as many values as the rows had.
    rw [transposeEvaluations_of_room (size_joinRows ok ▸ room), split]

/-- Six values, in fewer rows than columns. -/
def sixElements : Array (Element PrimeField.goldilocks) :=
  ([1, 2, 3, 4, 5, 6].map Element.ofNat).toArray

/-- Two rows of three: the second one ends with the last value, and both lead back to all six. -/
theorem layout_undone_both_ways_two_rows :
    1 ≤ 3 ∧ 3 ∣ sixElements.size ∧ (sixElements.size = 0 → PrimeField.goldilocks.hasRoom 3) ∧
      (∃ table, transposeEvaluations sixElements 3 = .ok table ∧ table.height = 2 ∧
        table.value? 1 2 = some (Element.ofNat 6) ∧
        untransposeEvaluations table.cells 3 = .ok sixElements) ∧
      1 ≤ 2 ^ 70 ∧ 2 ^ 70 ∣ (#[] : Array (Element PrimeField.goldilocks)).size ∧
      ¬PrimeField.goldilocks.hasRoom (2 ^ 70) ∧
      untransposeEvaluations (#[] : Array (Element PrimeField.goldilocks)) ((2 ^ 70 : Nat) : Int)
        = .error .oversized := by
  have divides : 3 ∣ sixElements.size := by decide
  have room : sixElements.size = 0 → PrimeField.goldilocks.hasRoom 3 := by decide
  -- Every number divides zero, so a vector without values has rows of any width.
  have beyond : 2 ^ 70 ∣ (#[] : Array (Element PrimeField.goldilocks)).size := by simp
  have crowded : ¬PrimeField.goldilocks.hasRoom (2 ^ 70) := by decide
  obtain ⟨⟨table, laidOut, height, _, each, _, joined⟩, _⟩ :=
    (layout_undone_both_ways (by decide) divides).2 room
  have refused := (layout_undone_both_ways (by decide) beyond).1 ⟨rfl, crowded⟩
  exact ⟨by decide, divides, room, ⟨table, laidOut, height, each 1 (by decide) 2 (by decide), joined⟩,
    by decide, beyond, crowded, refused.2⟩

/-- No values would fill no rows of 2^70 columns, but such a row has no addresses. -/
theorem no_rows_too_wide :
    1 ≤ 2 ^ 70 ∧ 2 ^ 70 ∣ (#[] : Array (Element PrimeField.goldilocks)).size ∧
      ¬∃ table, transposeEvaluations (#[] : Array (Element PrimeField.goldilocks)) ((2 ^ 70 : Nat) : Int)
        = .ok table := by
  refine ⟨by decide, by simp, fun laidOut => ?_⟩
  obtain ⟨table, laidOut⟩ := laidOut
  -- Both ways are refused for such a width.
  rw [(transposeEvaluations_eq_error rfl (by decide)).1] at laidOut
  simp at laidOut

end Proximity
