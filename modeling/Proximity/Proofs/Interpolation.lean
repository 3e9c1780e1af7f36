import Mathlib
import Proximity.Interpolation
import Proximity.Proofs.Collect
import Proximity.Proofs.Field.Generator
import Proximity.Proofs.Field.Roots
import Proximity.Proofs.Table

/-! A row's coefficients give its values back at the powers of the root of unity. -/

namespace Proximity

open scoped Element

variable {field : PrimeField}

/-- Horner's rule sums the coefficients times the powers of the point. -/
theorem evaluate_ofFn {count : Nat} (coefficients : Fin count → Element field)
    (point : Element field) :
    evaluate (List.ofFn coefficients) point
      = ∑ exponent, coefficients exponent * point ^ exponent.val := by
  -- Horner's rule takes the coefficients from the highest one down.
  induction count with
  | zero => rfl
  | succ count ih =>
    -- The powers of the point rise by one for all but the first coefficient.
    have step : evaluate (List.ofFn coefficients) point
        = evaluate (List.ofFn fun exponent => coefficients exponent.succ) point * point
          + coefficients 0 := by
      rw [List.ofFn_succ]
      rfl
    rw [step, ih, Fin.sum_univ_succ, Finset.sum_mul, add_comm, Fin.val_zero, pow_zero, mul_one]
    simp only [Fin.val_succ, pow_succ, mul_assoc]

/-- The products of matching elements are summed up. -/
theorem dot_ofFn {count : Nat} (left right : Fin count → Element field) :
    dot (List.ofFn left) (List.ofFn right) = ∑ index, left index * right index := by
  -- Matching elements are multiplied first, and the products are added in order.
  have products : List.zipWith (· * ·) (List.ofFn left) (List.ofFn right)
      = List.ofFn fun index => left index * right index :=
    List.ext_getElem (by simp) fun index _ _ => by simp
  rw [dot, products, ← List.sum_ofFn]
  exact List.sum_eq_foldl.symm

/-- Interpolation multiplies every row by one and the same transform. -/
theorem interpolateRows_eq_ok_iff {table : Table (Element field)}
    {coefficients : List (List (Element field))} :
    interpolateRows table = .ok coefficients ↔
      ∃ root, rootOfUnity field table.width = .ok root ∧
        field.hasRoom (table.width * table.width) ∧
        coefficients = table.rows.map fun row => (inverseTransform root table.width).map (dot row) := by
  -- There is a root to find, and the size of the transform to check.
  unfold interpolateRows
  rw [bind_eq_ok_iff]
  refine exists_congr fun root => and_congr_right fun _ => ?_
  cases field.hasRoom (table.width * table.width) with
  | false =>
    -- A refusal is no success, and there is no room either.
    constructor
    · intro refused
      simp at refused
    · intro fits
      simp at fits
  | true =>
    -- Nothing is left that could be refused.
    constructor
    · intro returned
      exact ⟨rfl, (Except.ok.inj returned).symm⟩
    · rintro ⟨_, rfl⟩
      rfl

/-- A width that there is no room to transform is refused, whatever the rows are. -/
theorem interpolateRows_eq_error {table : Table (Element field)} {root : Element field}
    (found : rootOfUnity field table.width = .ok root)
    (crowded : ¬field.hasRoom (table.width * table.width)) :
    interpolateRows table = .error .oversized := by
  have refused : (!field.hasRoom (table.width * table.width)) = true := by simpa using crowded
  rw [interpolateRows, found, ok_bind, if_pos refused]
  rfl

/-- The value that some coefficients lead to at a power of a root. -/
def valueAtPower {width : Nat} (root : Element field) (coefficients : Fin width → Element field)
    (power : Nat) : Element field :=
  ∑ exponent, coefficients exponent * root ^ (power * exponent.val)

variable [field.Lawful]

/-- The powers of a root of unity cancel out, unless all of them are one. -/
theorem sum_pow_mul_inv_pow {degree : Nat} {root : Element field}
    (primitive : IsPrimitiveRoot root degree) {left right : Nat} (inLeft : left < degree)
    (inRight : right < degree) :
    ∑ exponent : Fin degree, (root⁻¹ ^ exponent.val) ^ right * (root ^ left) ^ exponent.val
      = if right = left then (degree : Element field) else 0 := by
  -- A root other than zero has inverse powers.
  have nonzero : root ≠ 0 := primitive.ne_zero (by omega)
  -- Both factors are powers of one ratio of two powers of the root.
  have ratio : ∀ exponent : Fin degree,
      (root⁻¹ ^ exponent.val) ^ right * (root ^ left) ^ exponent.val
        = (root⁻¹ ^ right * root ^ left) ^ exponent.val := fun exponent => by
    rw [mul_pow, pow_right_comm]
  simp only [ratio]
  split
  · rename_i same
    -- Equal exponents cancel, and one is summed up as often as the degree says.
    have one : root⁻¹ ^ right * root ^ left = 1 := by
      rw [same, ← mul_pow, inv_mul_cancel₀ nonzero, one_pow]
    simp only [one, one_pow, Finset.sum_const, Finset.card_univ, Fintype.card_fin, nsmul_one]
  · rename_i different
    -- The ratio is another power than one, and its own power of the degree is one.
    have moves : root⁻¹ ^ right * root ^ left ≠ 1 := fun one => by
      rw [inv_pow, inv_mul_eq_one₀ (pow_ne_zero right nonzero)] at one
      exact different (primitive.pow_inj inRight inLeft one)
    have cycle : (root⁻¹ ^ right * root ^ left) ^ degree = 1 := by
      rw [mul_pow, ← pow_mul, ← pow_mul, Nat.mul_comm right, Nat.mul_comm left, pow_mul, pow_mul,
        inv_pow, primitive.pow_eq_one, inv_one, one_pow, one_pow, mul_one]
    rw [Fin.sum_univ_eq_sum_range (fun exponent => (root⁻¹ ^ right * root ^ left) ^ exponent)]
    refine eq_zero_of_ne_zero_of_mul_left_eq_zero (sub_ne_zero_of_ne moves.symm) ?_
    rw [mul_neg_geom_sum, cycle, sub_self]

/-- The inverse transform of the values at all powers of a root, read as coefficients, has these values. -/
theorem sum_inverseTransform {degree : Nat} {root : Element field}
    (found : rootOfUnity field degree = .ok root) (values : Fin degree → Element field)
    (index : Fin degree) :
    ∑ exponent : Fin degree,
        (∑ column, values column * ((root⁻¹ ^ exponent.val) ^ column.val * (degree : Element field)⁻¹))
          * (root ^ index.val) ^ exponent.val
      = values index := by
  have primitive := isPrimitiveRoot_of_rootOfUnity found
  have nonzero := natCast_degree_ne_zero found
  -- Values are summed up last, each with the powers that belong to its column.
  calc
    _ = ∑ column, values column * (degree : Element field)⁻¹ *
          ∑ exponent : Fin degree,
            (root⁻¹ ^ exponent.val) ^ column.val * (root ^ index.val) ^ exponent.val := by
      simp only [Finset.sum_mul, Finset.mul_sum]
      rw [Finset.sum_comm]
      refine Finset.sum_congr rfl fun column _ => Finset.sum_congr rfl fun exponent _ => ?_
      ring
    _ = ∑ column, if column = index then values column else 0 := by
      apply Finset.sum_congr rfl
      intro column _
      rw [sum_pow_mul_inv_pow primitive index.isLt column.isLt]
      simp only [Fin.val_inj]
      split
      · -- The scale divides by the degree, which the powers add up to.
        rw [mul_assoc, inv_mul_cancel₀ nonzero, mul_one]
      · rw [mul_zero]
    _ = values index := by simp

/-- Every row has as many coefficients as values, and they give the values at the powers of the root. -/
theorem interpolateRows_eq_ok {table : Table (Element field)}
    {coefficients : List (List (Element field))}
    (interpolated : interpolateRows table = .ok coefficients) :
    ∃ root, rootOfUnity field table.width = .ok root ∧
      ∃ matrix : Fin table.height → Fin table.width → Element field,
        coefficients = List.ofFn (fun row => List.ofFn (matrix row)) ∧
        ∀ row column, ∑ exponent, matrix row exponent * (root ^ column.val) ^ exponent.val
          = table.entry row column := by
  -- The coefficients are what the transform makes of the rows, entry by entry.
  obtain ⟨root, found, _, rfl⟩ := interpolateRows_eq_ok_iff.mp interpolated
  refine ⟨root, found, fun row exponent => ∑ column, table.entry row column *
    ((root⁻¹ ^ exponent.val) ^ column.val * (table.width : Element field)⁻¹), ?_, fun row column =>
      sum_inverseTransform found (table.entry row) column⟩
  -- The scale that is multiplied in is the inverse of the width.
  rw [Table.rows, List.map_ofFn]
  refine congrArg List.ofFn (funext fun row => ?_)
  rw [Function.comp_apply, inverseTransform, powers_eq, List.map_map, List.map_ofFn, Table.row]
  refine congrArg List.ofFn (funext fun exponent => ?_)
  rw [Function.comp_apply, Function.comp_apply, powers_eq, List.map_ofFn, dot_ofFn]
  rfl

/-- The values at the powers of a root of unity tell the coefficients apart. -/
theorem valueAtPower_inj {width : Nat} {root : Element field} (primitive : IsPrimitiveRoot root width)
    {left right : Fin width → Element field}
    (same : ∀ column : Fin width, valueAtPower root left column = valueAtPower root right column) :
    left = right := by
  -- The powers are different points, at which only zero coefficients all vanish.
  have distinct : Function.Injective fun column : Fin width => root ^ column.val :=
    fun _ _ powers => Fin.ext (primitive.pow_inj (Fin.isLt _) (Fin.isLt _) powers)
  refine sub_eq_zero.mp (Matrix.eq_zero_of_forall_index_sum_mul_pow_eq_zero distinct fun column => ?_)
  have both := same column
  simp only [valueAtPower, pow_mul] at both
  simp only [Pi.sub_apply, sub_mul, Finset.sum_sub_distrib, both, sub_self]

/-- Rows whose width has a root of unity and room for a transform are interpolated, and no other
coefficients than those returned have a row's values at the powers of the root. -/
theorem exists_interpolateRows (table : Table (Element field)) {root : Element field}
    (found : rootOfUnity field table.width = .ok root)
    (room : field.hasRoom (table.width * table.width)) :
    ∃ matrix : Fin table.height → Fin table.width → Element field,
      interpolateRows table = .ok (List.ofFn fun row => List.ofFn (matrix row)) ∧
      ∀ row coefficients, (∀ column : Fin table.width,
        valueAtPower root coefficients column = table.entry row column) ↔ coefficients = matrix row := by
  have interpolated := interpolateRows_eq_ok_iff.mpr ⟨root, found, room, rfl⟩
  obtain ⟨same, again, matrix, listed, values⟩ := interpolateRows_eq_ok interpolated
  obtain rfl : root = same := Except.ok.inj (found.symm.trans again)
  -- The coefficients returned have the values asked for, so any others with these values are the same.
  have takes : ∀ row column, valueAtPower root (matrix row) column.val = table.entry row column :=
    fun row column => by simp only [valueAtPower, pow_mul, values]
  refine ⟨matrix, listed ▸ interpolated, fun row coefficients => ⟨fun given => ?_, ?_⟩⟩
  · -- The entries of one row fix one list of coefficients, and the matrix has it.
    exact valueAtPower_inj (isPrimitiveRoot_of_rootOfUnity found) fun column =>
      (given column).trans (takes row column).symm
  · rintro rfl
    exact takes row

/-- Values that some coefficients lead to are interpolated by these coefficients. -/
theorem interpolateRows_ofFn {height width : Nat} {root : Element field}
    (found : rootOfUnity field width = .ok root) (room : field.hasRoom (width * width))
    (coefficients : Fin height → Fin width → Element field) :
    interpolateRows (Table.ofFn height width fun row column =>
        valueAtPower root (coefficients row) column)
      = .ok (List.ofFn fun row => List.ofFn (coefficients row)) := by
  let values : Fin height → Fin width → Element field := fun row column =>
    valueAtPower root (coefficients row) column
  -- The table filled that way has some coefficients, and no others.
  obtain ⟨matrix, interpolated, unique⟩ :=
    exists_interpolateRows (Table.ofFn height width values) found room
  -- The table was filled with the values of the coefficients.
  obtain rfl : coefficients = matrix := funext fun row =>
    (unique row (coefficients row)).mp fun column => (Table.entry_ofFn values row column).symm
  exact interpolated

/-- For every width that divides the order of the multiplicative group, interpolation and evaluation at the
powers of the root of unity undo each other: a row of the result is the one list of coefficients that leads
to the row's values, and rows of values that some coefficients lead to give these coefficients. This takes a
transform with addresses for all of its bytes; a larger one is refused, however many rows there are. -/
theorem interpolation_inverts_evaluation (table : Table (Element field)) (wide : 1 ≤ table.width)
    (divides : table.width ∣ field.order - 1) :
    ∃ root : Element field, rootOfUnity field table.width = .ok root ∧
      (¬field.hasRoom (table.width * table.width) → interpolateRows table = .error .oversized) ∧
      (field.hasRoom (table.width * table.width) →
        (∃ matrix : Fin table.height → Fin table.width → Element field,
          interpolateRows table = .ok (List.ofFn fun row => List.ofFn (matrix row)) ∧
          ∀ row coefficients, (∀ column : Fin table.width,
            valueAtPower root coefficients column = table.entry row column) ↔
              coefficients = matrix row) ∧
        ∀ coefficients : Fin table.height → Fin table.width → Element field,
          interpolateRows (Table.ofFn table.height table.width fun row column =>
              valueAtPower root (coefficients row) column)
            = .ok (List.ofFn fun row => List.ofFn (coefficients row))) := by
  obtain ⟨root, found⟩ := exists_rootOfUnity wide divides
  exact ⟨root, found, interpolateRows_eq_error found,
    fun room => ⟨exists_interpolateRows table found room, interpolateRows_ofFn found room⟩⟩

/-- Two rows of four values: equal ones, and the powers of the root of degree four. -/
def fourWideRows : Table (Element seventeen) :=
  ⟨2, 4, ([7, 7, 7, 7, 1, 13, 16, 4].map Element.ofNat).toArray, rfl⟩

/-- The coefficients of a constant and of the identity. -/
def constantAndIdentity (row : Fin 2) (exponent : Fin 4) : Element seventeen :=
  Element.ofNat ((if row = 0 then [7, 0, 0, 0] else [0, 1, 0, 0]).getD exponent 0)

/-- Equal values are those of the constant, and the powers of the root are those of the identity. -/
theorem interpolation_inverts_evaluation_two_rows :
    1 ≤ fourWideRows.width ∧ fourWideRows.width ∣ seventeen.order - 1 ∧
      seventeen.hasRoom (fourWideRows.width * fourWideRows.width) ∧
      ∃ root, rootOfUnity seventeen fourWideRows.width = .ok root ∧
        interpolateRows fourWideRows
          = .ok (List.ofFn fun row => List.ofFn (constantAndIdentity row)) ∧
        ∀ (row : Fin 2) (column : Fin 4),
          valueAtPower root (constantAndIdentity row) column = fourWideRows.entry row column := by
  have divides : fourWideRows.width ∣ seventeen.order - 1 := by decide
  have room : seventeen.hasRoom (fourWideRows.width * fourWideRows.width) := by decide
  have computed : interpolateRows fourWideRows
      = .ok (List.ofFn fun row => List.ofFn (constantAndIdentity row)) := by decide +kernel
  obtain ⟨root, found, _, inverts⟩ := interpolation_inverts_evaluation fourWideRows (by decide) divides
  obtain ⟨⟨matrix, interpolated, unique⟩, _⟩ := inverts room
  refine ⟨by decide, divides, room, root, found, computed, fun row => (unique row _).mpr ?_⟩
  -- What is computed is the one matrix that has these values.
  have rows := List.ofFn_injective (Except.ok.inj (computed.symm.trans interpolated))
  exact List.ofFn_injective (congrFun rows row)

/-- No rows would have no coefficients, but the transform for the largest power of two that divides the
order of the group has no addresses. -/
theorem no_rows_of_largest_domain :
    PrimeField.goldilocks.Lawful ∧ 1 ≤ 2 ^ 32 ∧ 2 ^ 32 ∣ PrimeField.goldilocks.order - 1 ∧
      interpolateRows (Table.empty (2 ^ 32) : Table (Element PrimeField.goldilocks))
        = .error .oversized := by
  have divides : 2 ^ 32 ∣ PrimeField.goldilocks.order - 1 := by decide
  have crowded : ¬PrimeField.goldilocks.hasRoom (2 ^ 32 * 2 ^ 32) := by decide
  refine ⟨inferInstance, by decide, divides, ?_⟩
  exact interpolateRows_eq_error (rootOfUnity_eq_ok_iff.mpr ⟨by decide, divides, rfl⟩) crowded

end Proximity
