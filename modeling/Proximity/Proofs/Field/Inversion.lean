import Mathlib
import Proximity.Field.Inversion
import Proximity.Proofs.Field.Arithmetic

/-! One inversion of a product serves all of its factors. -/

namespace Proximity

open scoped Element

variable {field : PrimeField}

/-- The running product is the product of a list. -/
theorem product_eq (values : List (Element field)) : product values = values.prod :=
  List.prod_eq_foldl.symm

/-- There is one inverse for each value. -/
theorem length_batchInverse {values inverses : List (Element field)}
    (inverted : batchInverse values = .ok inverses) : inverses.length = values.length := by
  -- The recursion gives back one inverse for every value it passes.
  have peeled : ∀ start : Element field, (peel start values).2.length = values.length := by
    clear inverted
    induction values with
    | nil => exact fun _ => rfl
    | cons value rest ih => exact fun start => congrArg (· + 1) (ih (start * value))
  unfold batchInverse at inverted
  split at inverted
  · simp at inverted
  · simp only [Except.ok.injEq] at inverted
    rw [← inverted, peeled]

section Prime

variable [Fact field.order.Prime]

/-- The product of a list vanishes exactly if one of its elements does. -/
theorem product_eq_zero_iff {values : List (Element field)} : product values = 0 ↔ 0 ∈ values := by
  have : NoZeroDivisors (Element field) := Element.noZeroDivisors
  have : Nontrivial (Element field) := Element.nontrivial
  -- The product vanishes like that of a list in a domain.
  rw [product_eq, List.prod_eq_zero_iff]

/-- Peeling one factor off at a time leaves the inverse of the start, and of every factor. -/
theorem peel_eq {start : Element field} {values : List (Element field)} (nonzero : start ≠ 0)
    (factors : 0 ∉ values) : peel start values = (start.inverse, values.map Element.inverse) := by
  have : NoZeroDivisors (Element field) := Element.noZeroDivisors
  -- The start takes up the values one after the other, so it stays quantified over.
  induction values generalizing start with
  | nil => rfl
  | cons value rest ih =>
    obtain ⟨first, others⟩ := List.ne_and_not_mem_of_not_mem_cons factors
    have tail := ih (mul_ne_zero nonzero (Ne.symm first)) others
    -- The inverse of both, times one of them, is the inverse of the other.
    have startInverse : (start * value).inverse * value = start.inverse := by
      rw [Element.inverse_mul, mul_assoc, mul_comm value.inverse,
        Element.mul_inverse_self (Ne.symm first), mul_one]
    have valueInverse : (start * value).inverse * start = value.inverse := by
      rw [Element.inverse_mul, mul_right_comm, mul_comm start.inverse,
        Element.mul_inverse_self nonzero, one_mul]
    -- What the rest gives back is the inverse of everything up to this value.
    rw [peel, tail]
    simp only [startInverse, valueInverse, List.map_cons]

/-- A batch with a zero is refused, and any other one inverted value by value. -/
theorem batchInverse_eq (values : List (Element field)) :
    batchInverse values
      = if 0 ∈ values then .error .zeroInverse else .ok (values.map Element.inverse) := by
  have : Nontrivial (Element field) := Element.nontrivial
  unfold batchInverse
  simp only [product_eq_zero_iff]
  split
  · rfl
  · rename_i factors
    -- The products start from one, which has an inverse of its own.
    have unit : (1 : Element field) ≠ 0 := one_ne_zero
    rw [peel_eq unit factors]

end Prime

/-- A batch is inverted exactly if none of its values is zero. -/
theorem batchInverse_eq_ok_iff [field.Lawful] {values inverses : List (Element field)} :
    batchInverse values = .ok inverses ↔ 0 ∉ values ∧ inverses = values.map (·⁻¹) := by
  rw [batchInverse_eq]
  -- With a zero neither side holds.
  split
  · rename_i zero
    simp only [reduceCtorEq, zero, not_true_eq_false, false_and]
  · rename_i factors
    simp only [Except.ok.injEq, factors, not_false_eq_true, true_and, eq_comm]
    rfl

/-- In a field of prime order a batch is refused exactly if it has a zero, and otherwise every value is
given its own inverse, with which it cancels. -/
theorem batch_inverts_each_value (prime : field.order.Prime) (values : List (Element field)) :
    (batchInverse values = .error .zeroInverse ↔ 0 ∈ values) ∧
      (0 ∉ values → ∃ inverses : Fin values.length → Element field,
        batchInverse values = .ok (List.ofFn inverses) ∧
          ∀ index, inverses index = values[index].inverse ∧ values[index] * inverses index = 1) := by
  have : Fact field.order.Prime := ⟨prime⟩
  rw [batchInverse_eq]
  constructor
  · -- What is inverted is not refused.
    split
    · rename_i zero
      exact iff_of_true rfl zero
    · rename_i factors
      exact iff_of_false (by simp) factors
  · intro factors
    refine ⟨fun index => values[index].inverse, ?_, fun index => ⟨rfl, ?_⟩⟩
    · -- The values are listed by their indexes before each is inverted.
      rw [if_neg factors]
      refine congrArg Except.ok (List.ext_getElem (by simp) fun index _ _ => ?_)
      simp
    · have nonzero : values[index] ≠ 0 := fun zero => factors (zero ▸ List.getElem_mem index.isLt)
      exact Element.mul_inverse_self nonzero

/-- Three values of the field of order 17. -/
def threeUnits : List (Element seventeen) :=
  [2, 3, 5].map Element.ofNat

/-- Two, three and five are inverted by nine, six and seven, unless a zero stands among them. -/
theorem batch_inverts_each_value_of_three :
    seventeen.order.Prime ∧ 0 ∉ threeUnits ∧
      (∃ inverses : Fin threeUnits.length → Element seventeen,
        batchInverse threeUnits = .ok (List.ofFn inverses) ∧
          List.ofFn inverses = [9, 6, 7].map Element.ofNat ∧
          ∀ index, threeUnits[index] * inverses index = 1) ∧
      batchInverse (0 :: threeUnits) = .error .zeroInverse := by
  have prime : seventeen.order.Prime := PrimeField.Lawful.prime
  have factors : 0 ∉ threeUnits := by decide
  have computed : batchInverse threeUnits = .ok ([9, 6, 7].map Element.ofNat) := by decide
  obtain ⟨inverses, inverted, cancels⟩ := (batch_inverts_each_value prime threeUnits).2 factors
  refine ⟨prime, factors, ⟨inverses, inverted, ?_, fun index => (cancels index).2⟩, ?_⟩
  · exact Except.ok.inj (inverted.symm.trans computed)
  · exact (batch_inverts_each_value prime (0 :: threeUnits)).1.mpr List.mem_cons_self

end Proximity
