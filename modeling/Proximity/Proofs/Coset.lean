import Mathlib
import Proximity.Proofs.Field.Roots

/-! Vectors as the values of polynomials on a coset: every vector is taken by exactly one small one. -/

namespace Proximity

open scoped Element
open Polynomial

variable {field : PrimeField}

/-- The values of a polynomial at the points of a coset, in the order of the powers of the root of unity. -/
def Evaluates (f : (Element field)[X]) (offset : Element field) (values : Array (Element field)) : Prop :=
  ∃ generator, rootOfUnity field values.size = .ok generator ∧
    ∀ index (inside : index < values.size), values[index] = f.eval (offset * generator ^ index)

variable [field.Lawful]

/-- Through values at different points there is exactly one polynomial with fewer coefficients than values
are given. -/
theorem existsUnique_through {count : Nat} {points : Fin count → Element field}
    (distinct : Function.Injective points) (values : Fin count → Element field) :
    ∃! f : (Element field)[X], f.degree < count ∧ ∀ index, f.eval (points index) = values index := by
  -- Interpolation finds it, and any other one agrees with it at too many points to differ.
  have characteristic : ∀ f : (Element field)[X],
      (f.degree < count ∧ ∀ index, f.eval (points index) = values index) ↔
        f = Lagrange.interpolate Finset.univ points values := by
    intro f
    rw [← Lagrange.eq_interpolate_iff values distinct.injOn, Finset.card_univ, Fintype.card_fin]
    simp only [Finset.mem_univ, true_imp_iff]
  exact ⟨_, (characteristic _).mpr rfl, fun f through => (characteristic f).mp through⟩

/-- The points of a coset are different from each other. -/
theorem cosetPoint_inj {size : Nat} {generator offset : Element field}
    (found : rootOfUnity field size = .ok generator) (shifts : offset ≠ 0) {left right : Nat}
    (inLeft : left < size) (inRight : right < size)
    (same : offset * generator ^ left = offset * generator ^ right) : left = right :=
  -- Shifting keeps the powers of the generator apart.
  (isPrimitiveRoot_of_rootOfUnity found).pow_inj inLeft inRight (mul_left_cancel₀ shifts same)

/-- A vector as long as a coset is taken there by exactly one polynomial below its length. -/
theorem existsUnique_evaluates {values : Array (Element field)} (positive : 0 < values.size)
    (divides : values.size ∣ field.order - 1) {offset : Element field} (shifts : offset ≠ 0) :
    ∃! f : (Element field)[X], f.degree < values.size ∧ Evaluates f offset values := by
  obtain ⟨generator, found⟩ := exists_rootOfUnity positive divides
  have distinct : Function.Injective fun index : Fin values.size => offset * generator ^ index.val :=
    fun left right same => Fin.ext (cosetPoint_inj found shifts left.isLt right.isLt same)
  -- There is only one root of unity that the points can be powers of.
  have through : ∀ f : (Element field)[X], Evaluates f offset values ↔
      ∀ index : Fin values.size, f.eval (offset * generator ^ index.val) = values[index] := by
    intro f
    -- Either way the generator is the one that was found.
    constructor
    · intro evaluates index
      obtain ⟨other, same, takes⟩ := evaluates
      obtain rfl : generator = other := Except.ok.inj (found.symm.trans same)
      exact (takes index.val index.isLt).symm
    · exact fun takes => ⟨generator, found, fun index inside => (takes ⟨index, inside⟩).symm⟩
  -- What is left is to interpolate at the points of the coset.
  simp only [through]
  exact existsUnique_through distinct fun index => values[index]

end Proximity
