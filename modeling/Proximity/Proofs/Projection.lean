import Mathlib
import Proximity.Projection
import Proximity.Proofs.Coset
import Proximity.Proofs.Field.Inversion
import Proximity.Proofs.Interpolation

/-! A row folds into the value at the challenge of the one small polynomial through its points. -/

namespace Proximity

open scoped Element
open Polynomial

variable {field : PrimeField}

/-- Folding succeeds exactly if each of its steps does, and combines what they lead to. -/
theorem projectRows_eq_ok_iff {table : Table (Element field)} {offset challenge : Int}
    {folded : Array (Element field)} :
    projectRows table offset challenge = .ok folded ↔
      ∃ coefficients generator start inverses point,
        interpolateRows table = .ok coefficients ∧
        rootOfUnity field ((table.height * table.width : Nat) : Int) = .ok generator ∧
        Element.ofInt? offset = .ok start ∧
        batchInverse (cosetPoints generator start table.height) = .ok inverses ∧
        Element.ofInt? challenge = .ok point ∧
        folded = (List.zipWith (fun row inverse => evaluate row (inverse * point))
          coefficients inverses).toArray := by
  unfold projectRows
  constructor
  · -- The steps are taken one behind the other, and each of them has succeeded.
    intro projected
    obtain ⟨coefficients, interpolated, rest⟩ := bind_eq_ok_iff.mp projected
    obtain ⟨generator, found, rest⟩ := bind_eq_ok_iff.mp rest
    obtain ⟨start, shifted, rest⟩ := bind_eq_ok_iff.mp rest
    obtain ⟨inverses, inverted, rest⟩ := bind_eq_ok_iff.mp rest
    obtain ⟨point, drawn, returned⟩ := bind_eq_ok_iff.mp rest
    exact ⟨coefficients, generator, start, inverses, point, interpolated, found, shifted, inverted,
      drawn, (Except.ok.inj returned).symm⟩
  · -- None of the steps refuses, so what they lead to is combined.
    intro steps
    obtain ⟨_, _, _, _, _, interpolated, found, shifted, inverted, drawn, rfl⟩ := steps
    rw [interpolated, ok_bind, found, ok_bind, shifted, ok_bind, inverted, ok_bind, drawn, ok_bind,
      pure_eq_ok]

/-- Rows of a width that there is no room to transform are refused, at every offset and challenge. -/
theorem projectRows_eq_error {table : Table (Element field)} {root : Element field}
    (found : rootOfUnity field table.width = .ok root)
    (crowded : ¬field.hasRoom (table.width * table.width)) (offset challenge : Int) :
    projectRows table offset challenge = .error .oversized := by
  -- The transform comes before anything else is looked at.
  rw [projectRows, interpolateRows_eq_error found crowded, error_bind]

/-- Folding leaves one value for each row. -/
theorem size_projectRows {table : Table (Element field)} {offset challenge : Int}
    {folded : Array (Element field)} (projected : projectRows table offset challenge = .ok folded) :
    folded.size = table.height := by
  obtain ⟨coefficients, _, _, inverses, _, interpolated, _, _, inverted, _, rfl⟩ :=
    projectRows_eq_ok_iff.mp projected
  -- Coefficients and inverses both come one for each row.
  have rows : coefficients.length = table.height := by
    obtain ⟨_, _, _, rfl⟩ := interpolateRows_eq_ok_iff.mp interpolated
    rw [List.length_map, Table.length_rows]
  have points : inverses.length = table.height := by
    rw [length_batchInverse inverted, cosetPoints, List.length_map, length_powers]
  rw [List.size_toArray, List.length_zipWith, rows, points, Nat.min_self]

/-- The points of one row have the power of the row's width in common. -/
theorem rowPoint_pow {height width : Nat} {generator : Element field}
    (cycle : generator ^ (width * height) = 1) (offset : Element field) (row column : Nat) :
    (offset * generator ^ (row + column * height)) ^ width = (offset * generator ^ row) ^ width := by
  -- A step from column to column is a root of unity of the row's width.
  have turns : (generator ^ (column * height)) ^ width = 1 := by
    rw [← pow_mul, Nat.mul_assoc, Nat.mul_comm column, Nat.mul_comm height, pow_mul, cycle, one_pow]
  rw [pow_add, ← mul_assoc, mul_pow, turns, mul_one]

/-- The points of a coset are listed in the order of the powers. -/
theorem cosetPoints_eq (generator offset : Element field) (count : Nat) :
    cosetPoints generator offset count
      = List.ofFn fun row : Fin count => generator ^ row.val * offset := by
  rw [cosetPoints, powers_eq, List.map_ofFn]
  rfl

variable [field.Lawful]

/-- Two units lead to a coset without zero. -/
theorem zero_not_mem_cosetPoints {generator offset : Element field} (unit : generator ≠ 0)
    (shifts : offset ≠ 0) (count : Nat) : 0 ∉ cosetPoints generator offset count := by
  rw [cosetPoints_eq, List.mem_ofFn]
  intro listed
  obtain ⟨row, zero⟩ := listed
  exact mul_ne_zero (pow_ne_zero _ unit) shifts zero

/-- The points of one row, which are as far apart as the rows are many, are different. -/
theorem rowPoints_injective {height width : Nat} {generator offset : Element field}
    (found : rootOfUnity field ((height * width : Nat) : Int) = .ok generator) (shifts : offset ≠ 0)
    (row : Fin height) :
    Function.Injective fun column : Fin width =>
      offset * generator ^ (row.val + column.val * height) := by
  -- Every point of the row is a point of the coset.
  have inside : ∀ column : Fin width, row.val + column.val * height < height * width := fun column => by
    rw [Nat.add_comm, Nat.mul_comm height]
    exact Table.cell_lt column.isLt row.isLt
  intro left right same
  have exponents := cosetPoint_inj found shifts (inside left) (inside right) same
  -- The exponents differ by whole columns, as many as the columns do.
  have columns := Nat.add_left_cancel exponents
  exact Fin.ext (Nat.eq_of_mul_eq_mul_right (Nat.zero_lt_of_lt row.isLt) columns)

/-- The polynomial with some coefficients in the ratio of its variable to a point. -/
noncomputable def ratioPolynomial {width : Nat} (coefficients : Fin width → Element field)
    (first : Element field) : (Element field)[X] :=
  ∑ exponent : Fin width, C (coefficients exponent * first⁻¹ ^ exponent.val) * X ^ exponent.val

/-- A polynomial in the ratio of its variable to a point is evaluated at that ratio. -/
theorem eval_ratioPolynomial {width : Nat} (coefficients : Fin width → Element field)
    (first point : Element field) :
    (ratioPolynomial coefficients first).eval point
      = ∑ exponent : Fin width, coefficients exponent * (first⁻¹ * point) ^ exponent.val := by
  simp only [ratioPolynomial, eval_finsetSum, eval_mul, eval_C, eval_pow, eval_X, mul_pow, mul_assoc]

/-- A row's coefficients, evaluated at the challenge over the row's first point, give the value of every
small polynomial that takes the row's values at its points. -/
theorem sum_at_ratio {height width : Nat} {generator offset : Element field}
    (found : rootOfUnity field ((height * width : Nat) : Int) = .ok generator) (shifts : offset ≠ 0)
    (row : Fin height) {coefficients values : Fin width → Element field}
    (interpolate : ∀ column : Fin width, ∑ exponent : Fin width,
      coefficients exponent * ((generator ^ height) ^ column.val) ^ exponent.val = values column)
    {f : (Element field)[X]} (small : f.degree < width)
    (through : ∀ column : Fin width,
      f.eval (offset * generator ^ (row.val + column.val * height)) = values column)
    (challenge : Element field) :
    ∑ exponent : Fin width, coefficients exponent *
        ((generator ^ row.val * offset)⁻¹ * challenge) ^ exponent.val = f.eval challenge := by
  have unit : generator ≠ 0 := (isPrimitiveRoot_of_rootOfUnity found).ne_zero
    (rootOfUnity_eq_ok_iff.mp found).1.ne'
  -- The row has a first point, and the others over it are powers of the row's own root.
  have first : generator ^ row.val * offset ≠ 0 := mul_ne_zero (pow_ne_zero _ unit) shifts
  have pointRatio : ∀ column : Fin width, (generator ^ row.val * offset)⁻¹ *
      (offset * generator ^ (row.val + column.val * height)) = (generator ^ height) ^ column.val := by
    intro column
    rw [pow_add, ← mul_assoc offset, mul_comm offset, inv_mul_cancel_left₀ first, Nat.mul_comm,
      pow_mul]
  -- Both polynomials are small, and agree on as many points as the row is wide.
  have same : ratioPolynomial coefficients (generator ^ row.val * offset) = f := by
    apply eq_of_degrees_lt_of_eval_index_eq Finset.univ
      (rowPoints_injective found shifts row).injOn
    · -- The ratio has a power for each coefficient, and so has the row a point.
      rw [Finset.card_univ, Fintype.card_fin]
      exact degree_sum_fin_lt _
    · rwa [Finset.card_univ, Fintype.card_fin]
    · -- At a point of the row the ratio polynomial takes the row's value.
      intro column _
      rw [eval_ratioPolynomial, through, ← interpolate column]
      simp only [pointRatio]
  rw [← eval_ratioPolynomial, same]

/-- Folding succeeds only on a coset with as many points as values, and then every row becomes the value
at the challenge of the polynomial through it. -/
theorem projectRows_eq_ok {table : Table (Element field)} {offset challenge : Int}
    {folded : Array (Element field)} (projected : projectRows table offset challenge = .ok folded) :
    ∃ generator, rootOfUnity field ((table.height * table.width : Nat) : Int) = .ok generator ∧
      ∃ start, Element.ofInt? offset = .ok start ∧ start ≠ 0 ∧
        ∃ point, Element.ofInt? challenge = .ok point ∧ folded.size = table.height ∧
          ∀ (row : Fin table.height) (f : (Element field)[X]), f.degree < table.width →
            (∀ column : Fin table.width,
              f.eval (start * generator ^ (row.val + column.val * table.height))
                = table.entry row column) →
            folded[row]? = some (f.eval point) := by
  obtain ⟨coefficients, generator, start, inverses, point, interpolated, found, shifted, inverted, drawn,
    rfl⟩ := projectRows_eq_ok_iff.mp projected
  obtain ⟨root, rooted, matrix, rfl, interpolate⟩ := interpolateRows_eq_ok interpolated
  have nested := rootOfUnity_of_mul found
  -- The points of the coset are inverted together, one for each row.
  rw [cosetPoints_eq] at inverted
  obtain ⟨nonzero, rfl⟩ := batchInverse_eq_ok_iff.mp inverted
  -- A coset without points has no root of unity, so there is a first point.
  have rows : 0 < table.height := Nat.pos_of_mul_pos_right (rootOfUnity_eq_ok_iff.mp found).1
  have shifts : start ≠ 0 := by
    rintro rfl
    exact nonzero (List.mem_ofFn.mpr ⟨⟨0, rows⟩, mul_zero _⟩)
  refine ⟨generator, found, start, shifted, shifts, point, drawn, by simp,
    fun row f small through => ?_⟩
  -- The row's own root is the one that leads from column to column.
  have same : root = generator ^ table.height := Except.ok.inj (rooted.symm.trans nested)
  have value := sum_at_ratio found shifts row
    (fun column => same ▸ interpolate row column) small through point
  rw [← evaluate_ofFn] at value
  rw [← value]
  simp

/-- Rows can be folded exactly if they hold values, a coset of the field has as many points, there is room to
transform their width, and offset and challenge are least residues, the offset not zero. -/
theorem exists_projectRows_iff {table : Table (Element field)} {offset challenge : Int} :
    (∃ folded, projectRows table offset challenge = .ok folded) ↔
      0 < table.height ∧ 0 < table.width ∧ table.height * table.width ∣ field.order - 1 ∧
        field.hasRoom (table.width * table.width) ∧
        (0 < offset ∧ offset < field.order) ∧ 0 ≤ challenge ∧ challenge < field.order := by
  constructor
  · -- What a fold has gone through says all that is needed.
    intro folds
    obtain ⟨folded, projected⟩ := folds
    obtain ⟨generator, found, start, shifted, shifts, point, drawn, _⟩ := projectRows_eq_ok projected
    obtain ⟨_, _, _, _, _, interpolated, _⟩ := projectRows_eq_ok_iff.mp projected
    obtain ⟨_, _, room, _⟩ := interpolateRows_eq_ok_iff.mp interpolated
    obtain ⟨positive, divides, _⟩ := rootOfUnity_eq_ok_iff.mp found
    rw [Element.ofInt?_eq_ok_iff.mp shifted, Element.ofInt?_eq_ok_iff.mp drawn]
    -- The coset has no zero, and residues are below the order.
    have positiveStart := Element.value_pos shifts
    have below := start.value_lt
    have inside := point.value_lt
    exact ⟨Nat.pos_of_mul_pos_right positive, Nat.pos_of_mul_pos_left positive, divides, room,
      by omega, by omega⟩
  · intro fits
    obtain ⟨high, wide, divides, room, ⟨positive, below⟩, natural, inside⟩ := fits
    -- There are roots for all values and for a single row.
    obtain ⟨generator, found⟩ := exists_rootOfUnity (Nat.mul_pos high wide) divides
    have interpolated := interpolateRows_eq_ok_iff.mpr ⟨_, rootOfUnity_of_mul found, room, rfl⟩
    -- Integers in the range are residues of elements.
    obtain ⟨start, rfl⟩ := Element.exists_value_eq positive.le below
    obtain ⟨point, rfl⟩ := Element.exists_value_eq natural inside
    -- No point of the coset is zero, so all of them are inverted.
    have unit : generator ≠ 0 := (isPrimitiveRoot_of_rootOfUnity found).ne_zero
      (Nat.mul_pos high wide).ne'
    have shifts : start ≠ 0 := by
      rintro rfl
      exact absurd positive (lt_irrefl (0 : Int))
    have inverted := batchInverse_eq_ok_iff.mpr
      ⟨zero_not_mem_cosetPoints unit shifts table.height, rfl⟩
    exact ⟨_, projectRows_eq_ok_iff.mpr ⟨_, generator, start, _, point, interpolated, found,
      Element.ofInt?_eq_ok_iff.mpr rfl, inverted, Element.ofInt?_eq_ok_iff.mpr rfl, rfl⟩⟩

end Proximity
