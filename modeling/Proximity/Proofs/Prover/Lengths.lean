import Mathlib
import Proximity.Proofs.Field.Roots
import Proximity.Proofs.Options
import Proximity.Proofs.Prover.Commitment

/-! Which lengths can be committed to: those whose remainder is still as long as the folding
factor. -/

namespace Proximity

variable {field : PrimeField}

/-- Over a domain that exists, an idle prover checks nothing of a vector but whether every round can
divide its length. -/
theorem accept_eq_of_forms (prover : Prover field) {evaluations : Evaluations}
    {values : Array (Element field)} (idle : prover.layers = []) (forms : evaluations.Forms values)
    (power : values.size.isPowerOfTwo) (inGroup : values.size ∣ field.order - 1) :
    prover.accept evaluations =
      if prover.options.foldingFactor ^ (prover.options.numLayers values.size + 1) ∣ values.size then
        .ok values
      else .error (.unfoldable values.size (prover.options.numLayers values.size + 1)
        prover.options.foldingFactor) := by
  -- The length is one that a domain can have, so a root of unity is found for it.
  obtain ⟨root, rooted⟩ := exists_rootOfUnity (Nat.pos_of_isPowerOfTwo power) inGroup
  split
  · -- With enough factors in the length all checks are passed.
    rename_i divides
    exact accept_eq_ok_iff.mpr ⟨idle, vector_eq_ok_iff.mpr forms, power, ⟨root, rooted⟩, divides⟩
  · -- The last check finds a rest, which is the only one to fail.
    rename_i uneven
    obtain ⟨tensor, read, cells⟩ := bind_eq_ok_iff.mp (vector_eq_ok_iff.mpr forms)
    have rest := mt Nat.dvd_of_mod_eq_zero uneven
    simp only [Prover.accept, idle, ne_eq, not_true_eq_false, if_false, read, cells, ok_bind, power,
      rooted]
    exact if_pos rest

namespace Options

/-- Domains are folded just as often as it takes to fit the limit, and then they are no shorter than
the limit over the factor unless they have been so from the start. For powers of two, every round can
divide the domain exactly if the remainder is no shorter than the factor, which is so for all of them
from the factor on exactly if the limit is at least half the factor's square; a prover asks for nothing
else of the length of a vector over a domain that exists. -/
theorem folding_fits_remainder (options : Options field) :
    (∀ size : Int,
      IsLeast {folds | size.fdiv (options.foldingFactor ^ folds : Nat) ≤ options.maxRemainderSize}
          (options.numLayers size) ∧
        options.remainderSize size ≤ options.maxRemainderSize ∧
        (options.maxRemainderSize < size →
          (options.maxRemainderSize : Int) ≤ options.foldingFactor * options.remainderSize size)) ∧
      (∀ size : Nat, size.isPowerOfTwo →
        (options.foldingFactor ^ (options.numLayers size + 1) ∣ size ↔
          (options.foldingFactor : Int) ≤ options.remainderSize size)) ∧
      ((∀ size : Nat, size.isPowerOfTwo → options.foldingFactor ≤ size →
          options.foldingFactor ^ (options.numLayers size + 1) ∣ size) ↔
        options.foldingFactor ^ 2 ≤ 2 * options.maxRemainderSize) ∧
      ∀ (hasher : Hasher) (evaluations : Evaluations) (values : Array (Element field)),
        evaluations.Forms values → values.size.isPowerOfTwo → values.size ∣ field.order - 1 →
          ({ options, hasher } : Prover field).accept evaluations =
            if (options.foldingFactor : Int) ≤ options.remainderSize values.size then .ok values
            else .error (.unfoldable values.size (options.numLayers values.size + 1)
              options.foldingFactor) := by
  refine ⟨fun size => ⟨⟨?_, ?_⟩, ?_, ?_⟩, fun size => options.pow_dvd_iff_le_remainderSize,
    options.forall_pow_dvd_iff, ?_⟩
  · -- So many folds reach the limit, and fewer do not.
    exact (options.fdiv_pow_le_iff size _).mpr (Nat.le_refl _)
  · exact fun folds within => (options.fdiv_pow_le_iff size folds).mp within
  · -- What so many folds leave is the remainder.
    exact (options.fdiv_pow_le_iff size _).mpr (Nat.le_refl _)
  · intro exceeds
    -- A size beyond the limit is a number.
    obtain ⟨size, rfl⟩ := Int.eq_ofNat_of_zero_le (le_trans (Int.natCast_nonneg _) exceeds.le)
    obtain ⟨folds, count, above⟩ := options.exists_lastFold (Int.ofNat_lt.mp exceeds)
    exact options.le_mul_remainderSize count options.foldingFactor_dvd_maxRemainderSize above.le
  · intro hasher evaluations values forms power inGroup
    -- A new prover holds no layers, so only the last check is open.
    have checked := accept_eq_of_forms { options, hasher } rfl forms power inGroup
    simpa only [options.pow_dvd_iff_le_remainderSize power] using checked

/-- Eight equal values over the field of order 17. -/
def eightOnes : Array (Element seventeen) :=
  Array.replicate 8 1

/-- By fours down to four values, eight are folded to two, so they cannot be committed to. -/
theorem folding_fits_remainder_eight_values :
    IsLeast {folds | (8 : Int).fdiv (4 ^ folds : Nat) ≤ 4} 1 ∧
      (4 : Int) < 8 ∧ (4 : Int) ≤ 4 * foursProver.options.remainderSize 8 ∧
      Nat.isPowerOfTwo 8 ∧ 4 ≤ 8 ∧ ¬4 ^ (1 + 1) ∣ 8 ∧ ¬4 ^ 2 ≤ 2 * 4 ∧
      Evaluations.Forms eightOnes
        (.plain (.list (eightOnes.toList.map fun element => .integer element.value))) ∧
      8 ∣ seventeen.order - 1 ∧
      foursProver.accept (.plain (.list (eightOnes.toList.map fun element => .integer element.value)))
        = .error (.unfoldable 8 2 4) := by
  -- Eight values are above the limit of four, and the two that one fold leaves are below it.
  have rounds : foursProver.options.numLayers 8 = 1 := by decide +kernel
  have remainder : foursProver.options.remainderSize 8 = 2 := by decide +kernel
  have power : Nat.isPowerOfTwo 8 := ⟨3, rfl⟩
  have inGroup : 8 ∣ seventeen.order - 1 := by decide
  have short : ¬(4 : Int) ≤ foursProver.options.remainderSize 8 := by
    rw [remainder]
    decide
  obtain ⟨sizes, even, always, accepts⟩ := folding_fits_remainder foursProver.options
  obtain ⟨least, _, above⟩ := sizes 8
  -- Two are shorter than the factor, so the second round cannot divide them.
  have uneven := mt (even 8 power).mp short
  have sharp := fun room => uneven (always.mpr room 8 power (by decide))
  -- The refusal is stated for the length and the count of layers, which are computed.
  have refused := (accepts checksum _ eightOnes .plain power inGroup).trans (if_neg short)
  have size : ((eightOnes.size : Nat) : Int) = 8 := rfl
  rw [size, rounds] at refused
  rw [rounds] at least
  exact ⟨least, by decide, above (by decide), power, by decide, by decide, sharp, .plain, inGroup,
    refused⟩

end Options

end Proximity
