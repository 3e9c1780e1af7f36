import Mathlib
import Proximity.Proofs.Folding
import Proximity.Proofs.Layout
import Proximity.Proofs.Projection

/-! Rows of evaluations fold into the evaluations of the folded polynomial, so that low degrees get lower,
and a high degree gets lower at few challenges only. -/

namespace Proximity

open scoped Element
open Polynomial

variable {field : PrimeField} [field.Lawful]

/-- The rows of a polynomial's evaluations fold into the evaluations of its fold. -/
theorem evaluates_projectRows {values folded : Array (Element field)} {width : Nat}
    {table : Table (Element field)} (split : splitRows values width = .ok table)
    {offset challenge : Element field}
    (projected : projectRows table offset.value challenge.value = .ok folded) {f : (Element field)[X]}
    (evaluates : Evaluates f offset values) :
    Evaluates (foldPolynomial width challenge f) (offset ^ width) folded := by
  obtain ⟨generator, found, takes⟩ := evaluates
  obtain ⟨same, rooted, start, shifted, _, point, drawn, size, folds⟩ := projectRows_eq_ok projected
  -- Offset and challenge were read back from their residues, unchanged.
  obtain rfl : offset = start := Element.ext (by exact_mod_cast Element.ofInt?_eq_ok_iff.mp shifted)
  obtain rfl : challenge = point := Element.ext (by exact_mod_cast Element.ofInt?_eq_ok_iff.mp drawn)
  obtain ⟨wide, _, rfl⟩ := splitRows_eq_ok_iff.mp split
  have whole : table.height * table.width = values.size := height_mul_width_of_splitRows split
  -- The folding took the root of unity that the values were taken at.
  rw [whole] at rooted
  obtain rfl : generator = same := Except.ok.inj (found.symm.trans rooted)
  rw [← whole, Nat.mul_comm] at found
  have cycle := (isPrimitiveRoot_of_rootOfUnity found).pow_eq_one
  refine ⟨generator ^ table.width, size ▸ rootOfUnity_of_mul found, fun row inFolded => ?_⟩
  have inside : row < table.height := size ▸ inFolded
  -- All points of a row have one power in common.
  obtain ⟨small, degree, agrees, value⟩ := exists_small_of_pow (Nat.pos_of_ne_zero wide) f
    ((offset * generator ^ row) ^ table.width)
  -- A row's entries are the vector's values at the points one column apart.
  have through : ∀ column : Fin table.width,
      small.eval (offset * generator ^ (row + column.val * table.height))
        = table.entry ⟨row, inside⟩ column := by
    intro column
    have within : row + column.val * table.height < values.size := by
      rw [← whole, Nat.add_comm, Nat.mul_comm table.height]
      exact Table.cell_lt column.isLt inside
    have cell := value?_of_splitRows split inside column.isLt
    rw [table.value?_eq_entry ⟨row, inside⟩ column, Array.getElem?_eq_getElem within,
      Option.some.injEq] at cell
    rw [agrees _ (rowPoint_pow cycle offset row column), ← takes _ within, ← cell]
  -- At the challenge the small polynomial has the value of the fold at that power.
  have landed := folds ⟨row, inside⟩ small degree through
  rw [Fin.getElem?_fin, Array.getElem?_eq_getElem inFolded, Option.some.injEq, value] at landed
  rw [landed, mul_pow, ← pow_mul, ← pow_mul, Nat.mul_comm row]

/-- Rows on a coset of the field can be folded at every challenge, if there is room to transform their
width. -/
theorem exists_projectRows {table : Table (Element field)} (high : 0 < table.height)
    (wide : 0 < table.width) (divides : table.height * table.width ∣ field.order - 1)
    (room : field.hasRoom (table.width * table.width)) {offset : Element field} (shifts : offset ≠ 0)
    (challenge : Element field) :
    ∃ folded, projectRows table offset.value challenge.value = .ok folded := by
  -- An element's own residue is in range, and not zero unless the element is.
  have positive := Element.value_pos shifts
  have offsetBelow := offset.value_lt
  have challengeBelow := challenge.value_lt
  exact exists_projectRows_iff.mpr ⟨high, wide, divides, room, by omega, by omega⟩

/-- If the rows of a small polynomial's evaluations fold into the evaluations of a polynomial below a bound,
then the fold is below the bound itself. -/
theorem degree_foldPolynomial_lt_of_evaluates {values folded : Array (Element field)} {width : Nat}
    {table : Table (Element field)} (split : splitRows values width = .ok table)
    {offset challenge : Element field} (shifts : offset ≠ 0)
    (projected : projectRows table offset.value challenge.value = .ok folded)
    {f g : (Element field)[X]} (small : f.degree < values.size) (evaluates : Evaluates f offset values)
    {bound : Nat} (within : bound ≤ table.height) (low : g.degree < bound)
    (takes : Evaluates g (offset ^ width) folded) :
    (foldPolynomial width challenge f).degree < bound := by
  have wide := Nat.pos_of_ne_zero (splitRows_eq_ok_iff.mp split).1
  have length := size_projectRows projected
  rw [← height_mul_width_of_splitRows split] at small
  have fold := evaluates_projectRows split projected evaluates
  -- The folded vector is taken by the fold and by nothing else below its length.
  have same : foldPolynomial width challenge f = g := by
    have ⟨_, found, _⟩ := takes
    obtain ⟨positive, divides, _⟩ := rootOfUnity_eq_ok_iff.mp found
    refine (existsUnique_evaluates positive divides (pow_ne_zero width shifts)).unique ⟨?_, fold⟩
      ⟨low.trans_le (by exact_mod_cast length ▸ within), takes⟩
    rw [length]
    exact degree_foldPolynomial_lt wide challenge small
  rwa [same]

/-- Rows are folded exactly if they hold values, a coset of the field has as many points, the transform of
their width has addresses for all of its bytes, and offset and challenge are least residues, the offset not
zero. Rows of a polynomial's evaluations fold into those of the sum of its parts by residue of the exponent,
each times a power of the challenge, on the coset of powers. -/
theorem projection_folds_polynomial (table : Table (Element field)) (offset challenge : Int) :
    ((∃ folded, projectRows table offset challenge = .ok folded) ↔
      0 < table.height ∧ 0 < table.width ∧ table.height * table.width ∣ field.order - 1 ∧
        field.hasRoom (table.width * table.width) ∧
        (0 < offset ∧ offset < field.order) ∧ 0 ≤ challenge ∧ challenge < field.order) ∧
    ∀ folded, projectRows table offset challenge = .ok folded →
      folded.size = table.height ∧
      ∃ start point : Element field, offset = start.value ∧ challenge = point.value ∧
        ∀ (f : (Element field)[X]) (values : Array (Element field)), Evaluates f start values →
          transposeEvaluations values table.width = .ok table →
          ∃ parts : Nat → (Element field)[X],
            f = ∑ residue ∈ Finset.range table.width,
              X ^ residue * (parts residue).comp (X ^ table.width) ∧
            Evaluates (∑ residue ∈ Finset.range table.width, C (point ^ residue) * parts residue)
              (start ^ table.width) folded := by
  refine ⟨exists_projectRows_iff, fun folded projected => ⟨size_projectRows projected, ?_⟩⟩
  obtain ⟨_, _, start, shifted, _, point, drawn, _⟩ := projectRows_eq_ok projected
  obtain rfl := Element.ofInt?_eq_ok_iff.mp shifted
  obtain rfl := Element.ofInt?_eq_ok_iff.mp drawn
  refine ⟨start, point, rfl, rfl, fun f values evaluates laidOut => ?_⟩
  obtain ⟨high, wide, _⟩ := exists_projectRows_iff.mp ⟨folded, projected⟩
  -- The parts are the polynomials with the coefficients of one residue each.
  refine ⟨fun residue => residuePart table.width residue f, ?_, ?_⟩
  · simp only [← expand_eq_comp_X_pow]
    exact eq_sum_expand_residuePart wide f
  · -- There are rows, so there are values, and the width is not too large for them.
    have some : values.size ≠ 0 := by
      obtain ⟨_, found, _⟩ := evaluates
      exact (rootOfUnity_eq_ok_iff.mp found).1.ne'
    rw [transposeEvaluations_eq_splitRows some] at laidOut
    exact evaluates_projectRows laidOut projected evaluates

/-- Eight elements of the field of order 17. -/
def eightElements : Array (Element seventeen) :=
  ([1, 2, 7, 2, 12, 16, 14, 14].map Element.ofNat).toArray

/-- They are the values of a polynomial of degree six. -/
theorem evaluates_eightElements : Evaluates (X ^ 6 + X) seventeen.primitiveElement eightElements := by
  refine ⟨.ofNat 9, by decide +kernel, ?_⟩
  -- Each of the eight values is compared.
  simp only [eval_add, eval_pow, eval_X]
  decide +kernel

/-- Two rows of four values fold at the challenge 5. -/
theorem projection_folds_polynomial_two_rows :
    Evaluates (X ^ 6 + X) seventeen.primitiveElement eightElements ∧
      ∃ table folded, transposeEvaluations eightElements 4 = .ok table ∧
        projectRows table 3 5 = .ok folded ∧
        ∃ parts : Nat → (Element seventeen)[X],
          X ^ 6 + X = ∑ residue ∈ Finset.range 4, X ^ residue * (parts residue).comp (X ^ 4) ∧
          Evaluates (∑ residue ∈ Finset.range 4, C (Element.ofNat 5 ^ residue) * parts residue)
            (seventeen.primitiveElement ^ 4) folded := by
  obtain ⟨table, split⟩ := exists_splitRows_iff.mpr
    (show (4 : Nat) ≠ 0 ∧ 4 ∣ eightElements.size by decide)
  have laidOut : transposeEvaluations eightElements 4 = .ok table :=
    (transposeEvaluations_eq_splitRows (by decide) 4).trans split
  have width : table.width = 4 := (splitRows_eq_ok_iff.mp split).2.2
  have cells : table.height * 4 = 8 := height_mul_width_of_splitRows split
  have height : table.height = 2 := by omega
  obtain ⟨outcome, folds⟩ := projection_folds_polynomial table 3 5
  rw [height, width] at outcome
  obtain ⟨folded, projected⟩ := outcome.mpr (by decide)
  obtain ⟨_, start, point, shifted, drawn, evaluated⟩ := folds folded projected
  -- Offset and challenge are the elements of the two integers.
  obtain rfl : start = seventeen.primitiveElement := Element.ext (by exact_mod_cast shifted.symm)
  obtain rfl : point = .ofNat 5 := Element.ext (by exact_mod_cast drawn.symm)
  rw [width] at evaluated
  exact ⟨evaluates_eightElements, table, folded, laidOut, projected,
    evaluated _ _ evaluates_eightElements laidOut⟩

/-- One row of zeros. -/
def zeroRow (field : PrimeField) (width : Nat) : Table (Element field) :=
  .ofFn 1 width fun _ _ => 0

/-- A single row of 2^30 zeros, at the offset 1 and the challenge 0, fits all that is asked of rows but one
thing: the transform of this width has 2^63 bytes, one more than there are addresses. -/
theorem no_fold_of_row_without_room :
    PrimeField.goldilocks.Lawful ∧
      0 < (zeroRow PrimeField.goldilocks (2 ^ 30)).height ∧
      0 < (zeroRow PrimeField.goldilocks (2 ^ 30)).width ∧
      (zeroRow PrimeField.goldilocks (2 ^ 30)).height * (zeroRow PrimeField.goldilocks (2 ^ 30)).width
        ∣ PrimeField.goldilocks.order - 1 ∧
      ((0 : Int) < 1 ∧ (1 : Int) < PrimeField.goldilocks.order) ∧
      ((0 : Int) ≤ 0 ∧ (0 : Int) < PrimeField.goldilocks.order) ∧
      projectRows (zeroRow PrimeField.goldilocks (2 ^ 30)) 1 0 = .error .oversized := by
  have divides : 1 * 2 ^ 30 ∣ PrimeField.goldilocks.order - 1 := by decide
  have crowded : ¬PrimeField.goldilocks.hasRoom (2 ^ 30 * 2 ^ 30) := by decide
  -- The width has a root of unity, so it is its transform that is refused.
  have found := rootOfUnity_eq_ok_iff.mpr
    ⟨show 0 < 2 ^ 30 by decide, Dvd.dvd.trans (Nat.dvd_mul_left _ 1) divides, rfl⟩
  exact ⟨inferInstance, Nat.one_pos, Nat.two_pow_pos 30, divides, by decide, by decide,
    projectRows_eq_error found crowded 1 0⟩

/-- A vector on a coset can be laid out in rows, which fold at every challenge if there is room to transform
their width. If the one polynomial below the vector's length that takes it there is not below some multiple
of the width, then at fewer challenges than the width says do the rows fold into the evaluations of a
polynomial below the multiple itself. -/
theorem folding_exposes_high_degree {values : Array (Element field)} {height width : Nat}
    (divides : height * width ∣ field.order - 1) (size : values.size = height * width)
    {offset : Element field} (shifts : offset ≠ 0) :
    ∃ table, transposeEvaluations values width = .ok table ∧
      (field.hasRoom (width * width) → ∀ challenge : Element field,
        ∃ folded, projectRows table offset.value challenge.value = .ok folded ∧
          folded.size = height) ∧
      ∃ f : (Element field)[X], f.degree < (height * width : Nat) ∧ Evaluates f offset values ∧
        ∀ bound : Nat, ¬f.degree < (bound * width : Nat) →
          {challenge : Element field | ∃ folded,
            projectRows table offset.value challenge.value = .ok folded ∧
              ∃ g : (Element field)[X], g.degree < bound ∧
                Evaluates g (offset ^ width) folded}.encard ≤ (width - 1 : Nat) := by
  have above := field.one_lt_order
  -- A vector that the field has a coset for has values, in rows that are not empty.
  have positive : 0 < values.size := size ▸ Nat.pos_of_dvd_of_pos divides (by omega)
  rw [size] at positive
  have high := Nat.pos_of_mul_pos_right positive
  have wide := Nat.pos_of_mul_pos_left positive
  -- A width that divides the length lays the vector out, in as many rows as expected.
  obtain ⟨table, split⟩ := exists_splitRows_iff.mpr ⟨wide.ne', Dvd.intro_left height size.symm⟩
  obtain ⟨_, _, rfl⟩ := splitRows_eq_ok_iff.mp split
  have cells := height_mul_width_of_splitRows split
  obtain rfl : table.height = height := Nat.eq_of_mul_eq_mul_right wide (cells.trans size)
  -- The polynomial is the one that interpolates the vector on the coset.
  obtain ⟨f, ⟨small, evaluates⟩, _⟩ :=
    existsUnique_evaluates (size ▸ positive) (size ▸ divides) shifts
  refine ⟨table, (transposeEvaluations_eq_splitRows (size ▸ positive.ne') _).trans split, ?_, f,
    size ▸ small, evaluates, ?_⟩
  · -- Rows on a coset of the field fold at every challenge.
    intro room challenge
    obtain ⟨folded, projected⟩ := exists_projectRows high wide divides room shifts challenge
    exact ⟨folded, projected, size_projectRows projected⟩
  · intro bound exceeds
    -- The multiple is within the length, as the polynomial is.
    have within : bound ≤ table.height := by
      by_contra beyond
      have longer : values.size ≤ bound * table.width :=
        size ▸ Nat.mul_le_mul_right _ (Nat.le_of_not_le beyond)
      exact exceeds (small.trans_le (by exact_mod_cast longer))
    calc
      _ ≤ {challenge | (foldPolynomial table.width challenge f).degree < bound}.encard := by
        -- Whatever the rows fold into is the fold of the polynomial.
        refine Set.encard_le_encard fun challenge lowers => ?_
        obtain ⟨folded, projected, g, low, takes⟩ := lowers
        exact degree_foldPolynomial_lt_of_evaluates split shifts projected small evaluates within low
          takes
      _ ≤ (table.width - 1 : Nat) := encard_lowering_challenges_le wide exceeds

/-- A polynomial of degree six over eight points is folded four to one into degree zero at three
challenges at most. -/
theorem folding_exposes_high_degree_eight_points :
    2 * 4 ∣ seventeen.order - 1 ∧ eightElements.size = 2 * 4 ∧ seventeen.primitiveElement ≠ 0 ∧
      ∃ table, transposeEvaluations eightElements 4 = .ok table ∧
        (∀ challenge : Element seventeen,
          ∃ folded, projectRows table 3 challenge.value = .ok folded ∧ folded.size = 2) ∧
        {challenge : Element seventeen | ∃ folded, projectRows table 3 challenge.value = .ok folded ∧
          ∃ g : (Element seventeen)[X], g.degree < (1 : Nat) ∧
            Evaluates g (seventeen.primitiveElement ^ 4) folded}.encard ≤ (3 : Nat) := by
  have divides : 2 * 4 ∣ seventeen.order - 1 := by decide
  have size : eightElements.size = 2 * 4 := by decide
  have shifts : seventeen.primitiveElement ≠ 0 := by decide
  have room : seventeen.hasRoom (4 * 4) := by decide
  obtain ⟨table, laidOut, folds, f, small, evaluates, few⟩ :=
    folding_exposes_high_degree divides size shifts
  have degree : (X ^ 6 + X : (Element seventeen)[X]).degree = 6 := by compute_degree!
  -- The small polynomial that takes the eight values is known.
  obtain rfl : f = X ^ 6 + X := by
    refine (existsUnique_evaluates (by rw [size]; decide) (size ▸ divides) shifts).unique
      ⟨size ▸ small, evaluates⟩ ⟨?_, evaluates_eightElements⟩
    rw [degree, size]
    decide
  refine ⟨divides, size, shifts, table, laidOut, folds room, few 1 ?_⟩
  rw [degree]
  decide

end Proximity
