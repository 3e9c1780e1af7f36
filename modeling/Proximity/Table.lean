import Proximity.Fault

/-! Rectangular arrays, stored row by row, with any number of rows and columns down to none. -/

namespace Proximity

/-- Values laid out in rows of one width, each row behind the one before it. -/
@[ext] structure Table (α : Type) where
  height : Nat
  width : Nat
  cells : Array α
  size_cells : cells.size = height * width

namespace Table

variable {α : Type}

/-- A row and a column inside the table lead to a cell. -/
theorem cell_lt {height width row column : Nat} (inRow : row < height) (inColumn : column < width) :
    row * width + column < height * width := by
  -- The whole row ends no later than the last row does.
  have ends : (row + 1) * width ≤ height * width := Nat.mul_le_mul_right width inRow
  rw [Nat.succ_mul] at ends
  omega

/-- The table of a width without any row. -/
def empty (width : Nat) : Table α :=
  ⟨0, width, #[], (Nat.zero_mul width).symm⟩

/-- The value in a row and a column. -/
def entry (table : Table α) (row : Fin table.height) (column : Fin table.width) : α :=
  have inside : row.val * table.width + column.val < table.cells.size := by
    rw [table.size_cells]
    exact cell_lt row.isLt column.isLt
  table.cells[row.val * table.width + column.val]

/-- The row a cell stands in. -/
def rowOf {height width : Nat} (cell : Fin (height * width)) : Fin height :=
  ⟨cell.val / width, Nat.div_lt_of_lt_mul (Nat.lt_of_lt_of_eq cell.isLt (Nat.mul_comm height width))⟩

/-- The column a cell stands in. -/
def columnOf {height width : Nat} (cell : Fin (height * width)) : Fin width :=
  ⟨cell.val % width, Nat.mod_lt _ (Nat.pos_of_mul_pos_left (Nat.zero_lt_of_lt cell.isLt))⟩

/-- The table whose values are given by row and column. -/
def ofFn (height width : Nat) (value : Fin height → Fin width → α) : Table α where
  height := height
  width := width
  cells := Array.ofFn fun cell : Fin (height * width) => value (rowOf cell) (columnOf cell)
  size_cells := Array.size_ofFn

/-- Rows and columns exchanged. -/
def transpose (table : Table α) : Table α :=
  ofFn table.width table.height fun row column => table.entry column row

/-- One row. -/
def row (table : Table α) (index : Fin table.height) : List α :=
  List.ofFn (table.entry index)

/-- All rows in order. -/
def rows (table : Table α) : List (List α) :=
  List.ofFn table.row

/-- The rows at some places, in the order named. -/
def select (table : Table α) (places : List Nat) : Except Fault (Table α) :=
  if inside : ∀ place ∈ places, place < table.height then
    .ok (ofFn places.length table.width fun index column =>
      table.entry ⟨places[index], inside _ (List.getElem_mem _)⟩ column)
  else .error .rowOutOfRange

/-- Values cut into rows of a width that divides their number. -/
def ofWidth? (values : Array α) (width : Nat) : Option (Table α) :=
  if fits : values.size % width = 0 ∧ width ≠ 0 then
    some ⟨values.size / width, width, values, by
      rw [Nat.mul_comm, Nat.mul_div_cancel' (Nat.dvd_of_mod_eq_zero fits.1)]⟩
  else none

/-- Values cut into a number of rows that divides their number. -/
def ofHeight? (values : Array α) (height : Nat) : Option (Table α) :=
  if fits : values.size % height = 0 ∧ height ≠ 0 then
    some ⟨height, values.size / height, values, by
      rw [Nat.mul_div_cancel' (Nat.dvd_of_mod_eq_zero fits.1)]⟩
  else none

/-- Rows of one length have as many values together as that length times their number. -/
theorem length_flatten_of_even {width : Nat} :
    ∀ {rows : List (List α)}, (∀ row ∈ rows, row.length = width) →
      rows.flatten.length = rows.length * width
  | [], _ => by simp
  | row :: rest, even => by
    have evenRest : ∀ other ∈ rest, other.length = width := fun other member =>
      even other (List.mem_cons_of_mem row member)
    have tail := length_flatten_of_even evenRest
    have head := even row List.mem_cons_self
    simp only [List.flatten_cons, List.length_append, List.length_cons, head, tail,
      Nat.succ_mul]
    omega

end Table

end Proximity
