import Mathlib
import Proximity.Proofs.Collect
import Proximity.Table

/-! Reading tables by row and column: transposed, cut out of a vector, and row by row. -/

namespace Proximity

namespace Table

variable {α : Type}

/-- The value in a row and a column, if there is such a place. -/
def value? (table : Table α) (row column : Nat) : Option α :=
  if row < table.height ∧ column < table.width then table.cells[row * table.width + column]?
  else none

/-- Inside the table there is a value, and it is the entry. -/
theorem value?_eq_entry (table : Table α) (row : Fin table.height) (column : Fin table.width) :
    table.value? row column = some (table.entry row column) := by
  -- A row and a column inside the table lead to a cell.
  have inside : row.val * table.width + column.val < table.cells.size := by
    rw [table.size_cells]
    exact cell_lt row.isLt column.isLt
  -- The check of the bounds is passed, and so is the one of the array.
  rw [value?, if_pos ⟨row.isLt, column.isLt⟩, Array.getElem?_eq_getElem inside]
  rfl

/-- The values of a table stand in its cells row by row. -/
theorem getElem?_cells (table : Table α) {cell : Nat} (inside : cell < table.height * table.width) :
    table.cells[cell]? = table.value? (cell / table.width) (cell % table.width) := by
  -- Division splits a cell into its row and its column.
  have row := (rowOf ⟨cell, inside⟩).isLt
  have column := (columnOf ⟨cell, inside⟩).isLt
  rw [value?, if_pos ⟨row, column⟩, Nat.div_add_mod']

/-- A table given by row and column has the values given. -/
theorem value?_ofFn {height width : Nat} (value : Fin height → Fin width → α) {row column : Nat}
    (inRow : row < height) (inColumn : column < width) :
    (ofFn height width value).value? row column = some (value ⟨row, inRow⟩ ⟨column, inColumn⟩) := by
  have inside : row * width + column < height * width := cell_lt inRow inColumn
  -- The cell is split into the row and the column it was put together from.
  have rowIs : (row * width + column) / width = row := by
    rw [Nat.mul_comm, Nat.mul_add_div (Nat.zero_lt_of_lt inColumn), Nat.div_eq_of_lt inColumn,
      Nat.add_zero]
  have columnIs : (row * width + column) % width = column := by
    rw [Nat.mul_comm, Nat.mul_add_mod, Nat.mod_eq_of_lt inColumn]
  rw [value?, if_pos ⟨inRow, inColumn⟩]
  simp only [ofFn, Array.getElem?_ofFn, inside, rowOf, columnOf, rowIs, columnIs, dite_true]

/-- An entry of a table given by row and column is the value given. -/
theorem entry_ofFn {height width : Nat} (value : Fin height → Fin width → α) (row : Fin height)
    (column : Fin width) : (ofFn height width value).entry row column = value row column :=
  Option.some.inj (((ofFn height width value).value?_eq_entry row column).symm.trans
    (value?_ofFn value row.isLt column.isLt))

/-- Transposing exchanges rows and columns. -/
theorem value?_transpose (table : Table α) (row column : Nat) :
    table.transpose.value? row column = table.value? column row := by
  -- Outside there is no value on either side.
  by_cases inside : row < table.width ∧ column < table.height
  · rw [transpose, value?_ofFn _ inside.1 inside.2]
    exact (table.value?_eq_entry ⟨column, inside.2⟩ ⟨row, inside.1⟩).symm
  · have outside : ¬(column < table.height ∧ row < table.width) := fun other => inside other.symm
    rw [value?, value?, if_neg outside]
    exact if_neg inside

/-- Tables of one shape are equal if they have the same values. -/
theorem ext_value? {table other : Table α} (height : table.height = other.height)
    (width : table.width = other.width)
    (values : ∀ row column, table.value? row column = other.value? row column) : table = other := by
  -- The cells are compared one by one, each by its row and its column.
  refine Table.ext height width (Array.ext_getElem? fun cell => ?_)
  by_cases inside : cell < table.height * table.width
  · rw [table.getElem?_cells inside, other.getElem?_cells (height ▸ width ▸ inside), values, width]
  · have otherOutside : ¬cell < other.height * other.width := height ▸ width ▸ inside
    -- Past the last cell there is nothing in either table.
    rw [Array.getElem?_eq_none (by rw [table.size_cells]; omega),
      Array.getElem?_eq_none (by rw [other.size_cells]; omega)]

/-- Transposing twice changes nothing. -/
@[simp] theorem transpose_transpose (table : Table α) : table.transpose.transpose = table :=
  ext_value? rfl rfl fun row column => by rw [value?_transpose, value?_transpose]

/-- Cutting values into rows of a width leads to the one table of that width with these cells. -/
theorem ofWidth?_eq_some_iff {values : Array α} {width : Nat} {table : Table α} :
    ofWidth? values width = some table ↔ width ≠ 0 ∧ table.cells = values ∧ table.width = width := by
  unfold ofWidth?
  constructor
  · -- Values are cut only if the width is not zero and divides them up.
    intro cut
    split at cut
    · rename_i fits
      obtain rfl := Option.some.inj cut
      exact ⟨fits.2, rfl, rfl⟩
    · simp at cut
  · -- The number of cells divided by the width is the height.
    rintro ⟨wide, rfl, rfl⟩
    have height : table.cells.size / table.width = table.height := by
      rw [table.size_cells, Nat.mul_div_cancel _ (Nat.pos_of_ne_zero wide)]
    rw [dif_pos ⟨by rw [table.size_cells, Nat.mul_mod_left], wide⟩]
    exact congrArg some (Table.ext height rfl rfl)

/-- Cutting values into a number of rows leads to the one table of that height with these cells. -/
theorem ofHeight?_eq_some_iff {values : Array α} {height : Nat} {table : Table α} :
    ofHeight? values height = some table ↔
      height ≠ 0 ∧ table.cells = values ∧ table.height = height := by
  unfold ofHeight?
  constructor
  · -- The same holds of the height.
    intro cut
    split at cut
    · rename_i fits
      obtain rfl := Option.some.inj cut
      exact ⟨fits.2, rfl, rfl⟩
    · simp at cut
  · -- The number of cells divided by the height is the width.
    rintro ⟨high, rfl, rfl⟩
    have width : table.cells.size / table.height = table.width := by
      rw [table.size_cells, Nat.mul_div_cancel_left _ (Nat.pos_of_ne_zero high)]
    rw [dif_pos ⟨by rw [table.size_cells, Nat.mul_mod_right], high⟩]
    exact congrArg some (Table.ext rfl width rfl)

/-- There are as many rows as the table is high. -/
@[simp] theorem length_rows (table : Table α) : table.rows.length = table.height := by
  simp only [rows, List.length_ofFn]

/-- The rows are listed in order. -/
theorem getD_rows (table : Table α) (row : Fin table.height) :
    table.rows.getD row [] = table.row row := by
  -- There is a row at every place below the height.
  rw [List.getD_eq_getElem _ _ (by simp)]
  simp only [rows, List.getElem_ofFn]

/-- A row lists its values by column. -/
theorem getElem?_row (table : Table α) (row : Fin table.height) (column : Nat) :
    (table.row row)[column]? = table.value? row column := by
  -- A column outside the table has no value.
  by_cases inside : column < table.width
  · rw [table.value?_eq_entry row ⟨column, inside⟩, Table.row, List.getElem?_ofFn, dif_pos inside]
  · rw [Table.row, List.getElem?_ofFn, dif_neg inside, value?, if_neg fun both => inside both.2]

/-- The rows one behind the other are the cells. -/
theorem flatten_rows (table : Table α) : table.rows.flatten = table.cells.toList := by
  -- A list of as many values as there are cells is cut into rows of the width.
  have cells : table.cells.toList = List.ofFn fun cell : Fin (table.height * table.width) =>
      table.cells[Fin.cast table.size_cells.symm cell] := by
    apply List.ext_getElem
    · rw [Array.length_toList, List.length_ofFn, table.size_cells]
    · intro cell _ _
      simp
  rw [cells, List.ofFn_mul]
  rfl

/-- A transposed table has the same entries, at exchanged places. -/
theorem entry_transpose (table : Table α) (row : Fin table.width) (column : Fin table.height) :
    table.transpose.entry row column = table.entry column row :=
  entry_ofFn _ row column

/-- Transposing keeps all values, in another order. -/
theorem cells_transpose_perm (table : Table α) :
    table.transpose.cells.toList.Perm table.cells.toList := by
  -- The entries are listed by column and row on one side, and by row and column on the other.
  have listed : ∀ table : Table α, (table.cells.toList : Multiset α)
      = (List.finRange table.height : Multiset _).bind fun row =>
          (List.finRange table.width : Multiset _).map (table.entry row) := by
    intro table
    rw [← table.flatten_rows, rows, List.ofFn_eq_map, ← List.flatMap_def, ← Multiset.coe_bind]
    simp only [row, List.ofFn_eq_map, Multiset.map_coe]
  rw [← Multiset.coe_eq_coe, listed, listed, Multiset.bind_map_comm]
  exact Multiset.bind_congr fun row _ => Multiset.map_congr rfl fun column _ =>
    table.entry_transpose column row

/-- Every row has a value for each column. -/
theorem length_of_mem_rows {table : Table α} {row : List α} (member : row ∈ table.rows) :
    row.length = table.width := by
  obtain ⟨index, rfl⟩ := List.mem_ofFn.mp member
  exact List.length_ofFn

/-- As many rows of one width are the same rows if they hold the same values in order. -/
theorem eq_of_flatten_eq {width : Nat} {rows others : List (List α)}
    (widths : ∀ row ∈ rows, row.length = width) (otherWidths : ∀ row ∈ others, row.length = width)
    (count : rows.length = others.length) (same : rows.flatten = others.flatten) : rows = others := by
  -- The lengths of the rows tell where the values are cut.
  refine List.eq_iff_flatten_eq.mpr ⟨same, ?_⟩
  rw [List.map_eq_replicate_iff.mpr widths, List.map_eq_replicate_iff.mpr otherWidths, count]

/-- Tables of one width are equal if their rows are. -/
theorem ext_rows {table other : Table α} (width : table.width = other.width)
    (rows : table.rows = other.rows) : table = other := by
  -- The height is the number of rows, and the cells are the values of the rows.
  refine Table.ext ?_ width (Array.ext' ?_)
  · rw [← table.length_rows, rows, other.length_rows]
  · rw [← table.flatten_rows, rows, other.flatten_rows]

/-- The rows of a table that are named by their places. -/
def selection (table : Table α) (places : List Nat) (inside : ∀ place ∈ places, place < table.height) :
    Table α :=
  ofFn places.length table.width fun index column =>
    table.entry ⟨places.get index, inside _ (List.get_mem places index)⟩ column

/-- A selection holds the values of the rows named, in the order they are named in. -/
theorem value?_selection {table : Table α} {places : List Nat}
    (inside : ∀ place ∈ places, place < table.height) {row : Nat} (inRow : row < places.length)
    (column : Nat) :
    (table.selection places inside).value? row column = table.value? places[row] column := by
  have inHeight : places[row] < table.height := inside _ (List.getElem_mem inRow)
  by_cases inColumn : column < table.width
  · rw [selection, value?_ofFn _ inRow inColumn]
    exact (table.value?_eq_entry ⟨_, inHeight⟩ ⟨column, inColumn⟩).symm
  · -- Beyond the width neither table has a value.
    have outside : ¬(places[row] < table.height ∧ column < table.width) :=
      fun both => inColumn both.2
    rw [value?, value?, if_neg outside]
    exact if_neg fun both => inColumn both.2

/-- The rows of a selection are the rows named. -/
theorem rows_selection {table : Table α} {places : List Nat}
    (inside : ∀ place ∈ places, place < table.height) :
    (table.selection places inside).rows = places.map fun place => table.rows.getD place [] := by
  apply List.ext_getElem
  · simp [selection, ofFn]
  · intro row _ inPlaces
    have inRow : row < places.length := by simpa using inPlaces
    have inHeight : places[row] < table.height := inside _ (List.getElem_mem inRow)
    rw [List.getElem_map, table.getD_rows ⟨_, inHeight⟩]
    simp only [rows, List.getElem_ofFn]
    -- Both rows are decided by their values.
    apply List.ext_getElem?
    intro column
    rw [getElem?_row, getElem?_row]
    exact value?_selection inside inRow column

/-- Rows that are there can be selected; the selection holds their values in the order named. -/
theorem select_eq_ok {table : Table α} {places : List Nat}
    (inside : ∀ place ∈ places, place < table.height) :
    ∃ selected, table.select places = .ok selected ∧ selected.height = places.length ∧
      selected.width = table.width ∧
      (∀ row (_ : row < places.length) column,
        selected.value? row column = table.value? places[row] column) ∧
      selected.rows = places.map fun place => table.rows.getD place [] := by
  have selected : table.select places = .ok (table.selection places inside) := dif_pos inside
  exact ⟨_, selected, rfl, rfl, fun _ => value?_selection inside, rows_selection inside⟩

/-- As many rows are selected as are named, and none is cut. -/
theorem shape_of_select {table selected : Table α} {places : List Nat}
    (chosen : table.select places = .ok selected) :
    selected.height = places.length ∧ selected.width = table.width := by
  -- A selection is made only of places inside the table.
  unfold select at chosen
  split at chosen
  · obtain rfl := Except.ok.inj chosen
    exact ⟨rfl, rfl⟩
  · simp at chosen

end Table

end Proximity
