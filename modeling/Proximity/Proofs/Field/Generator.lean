import Mathlib
import Proximity.Proofs.Field.Arithmetic

/-! A generator certifies its field: its powers come back to one only after all nonzero residues if the
order is prime, and after fewer if it is not. -/

namespace Proximity.PrimeField

open scoped Element

/-- A field keeps its promise if its generator's powers come back to one after as many steps as there are
nonzero elements, and not after a fraction of them by any prime factor. -/
theorem lawful_of_factors {field : PrimeField} (factors : List Nat)
    (primes : ∀ factor ∈ factors, factor.Prime) (product : factors.prod = field.order - 1)
    (cycle : (field.primitiveElement : Element field) ^ (field.order - 1) = 1)
    (misses : ∀ factor ∈ factors,
      (field.primitiveElement : Element field) ^ ((field.order - 1) / factor) ≠ 1) : field.Lawful := by
  -- Powers of the generator are told apart by the elements that stand for them.
  have one : ∀ exponent, (field.generator : ZMod field.order) ^ exponent = 1 ↔
      (field.primitiveElement : Element field) ^ exponent = 1 := fun exponent => by
    rw [← Element.residue_injective.eq_iff, Element.residue_pow, Element.residue_one]
    rfl
  have whole := (one _).mpr cycle
  have parts : ∀ prime : Nat, prime.Prime → prime ∣ field.order - 1 →
      (field.generator : ZMod field.order) ^ ((field.order - 1) / prime) ≠ 1 := by
    intro prime isPrime divides
    -- A prime that divides the product is one of the factors.
    have listed : prime ∈ factors := mem_list_primes_of_dvd_prod isPrime.prime
      (fun factor member => (primes factor member).prime) (product ▸ divides)
    exact (one _).not.mpr (misses prime listed)
  -- Both promises follow from the same powers: the order is prime, and the generator's is one less.
  have above := field.one_lt_order
  exact ⟨lucas_primality field.order _ whole parts,
    orderOf_eq_of_pow_and_pow_div_prime (by omega) whole parts⟩

/-- The order of the multiplicative group is 2^32 (2^32 - 1), a product of twos and of Fermat primes. -/
instance : goldilocks.Lawful :=
  lawful_of_factors (List.replicate 32 2 ++ [3, 5, 17, 257, 65537])
    (by norm_num) (by decide) (by decide +kernel) (by decide +kernel)

end Proximity.PrimeField
