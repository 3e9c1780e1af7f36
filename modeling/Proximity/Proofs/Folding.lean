import Mathlib
import Proximity.Proofs.Field.Arithmetic

/-! Polynomials split by the residues of their exponents, and put together again at a challenge. -/

namespace Proximity

open Polynomial

variable {R : Type} [CommRing R] {factor : Nat}

/-- The coefficients whose exponents leave a residue when divided by the factor. -/
noncomputable def residuePart (factor residue : Nat) (f : R[X]) : R[X] :=
  contract factor (divX^[residue] f)

/-- The parts of a polynomial, each with the power of the challenge that its residue says. -/
noncomputable def foldPolynomial (factor : Nat) (challenge : R) (f : R[X]) : R[X] :=
  ∑ residue ∈ Finset.range factor, C (challenge ^ residue) * residuePart factor residue f

/-- The polynomial after several folds, each at the challenge of its round. -/
noncomputable def foldRounds (factor : Nat) (challenge : Nat → R) (f : R[X]) : (rounds : Nat) → R[X]
  | 0 => f
  | rounds + 1 => foldPolynomial factor (challenge rounds) (foldRounds factor challenge f rounds)

/-- Dividing by the variable moves all coefficients down. -/
theorem coeff_iterate_divX (f : R[X]) (steps exponent : Nat) :
    (divX^[steps] f).coeff exponent = f.coeff (exponent + steps) := by
  -- Each division moves the coefficients down by one more place.
  induction steps generalizing exponent with
  | zero => rfl
  | succ steps ih =>
    rw [Function.iterate_succ_apply', coeff_divX, ih, Nat.add_right_comm, Nat.add_assoc]

/-- A part has the coefficients of one residue in order. -/
theorem coeff_residuePart (positive : 0 < factor) (residue : Nat) (f : R[X]) (exponent : Nat) :
    (residuePart factor residue f).coeff exponent = f.coeff (exponent * factor + residue) := by
  rw [residuePart, coeff_contract positive.ne', coeff_iterate_divX]

/-- A fold sums up the coefficients that are less than the factor apart. -/
theorem coeff_foldPolynomial (positive : 0 < factor) (challenge : R) (f : R[X]) (exponent : Nat) :
    (foldPolynomial factor challenge f).coeff exponent
      = ∑ residue ∈ Finset.range factor,
          f.coeff (exponent * factor + residue) * challenge ^ residue := by
  -- Coefficient by coefficient, a fold is the sum over the residues.
  rw [foldPolynomial, finsetSum_coeff]
  apply Finset.sum_congr rfl
  intro residue _
  rw [coeff_C_mul, coeff_residuePart positive, mul_comm]

/-- A fold divides the degree by the factor. -/
theorem natDegree_foldPolynomial_le (positive : 0 < factor) (challenge : R) (f : R[X]) :
    (foldPolynomial factor challenge f).natDegree ≤ f.natDegree / factor := by
  -- Above the quotient every coefficient of the sum lies beyond the degree.
  apply natDegree_le_iff_coeff_eq_zero.mpr
  intro exponent above
  rw [coeff_foldPolynomial positive]
  apply Finset.sum_eq_zero
  intro residue _
  have beyond : f.natDegree < exponent * factor + residue :=
    Nat.lt_of_lt_of_le ((Nat.div_lt_iff_lt_mul positive).mp above) (Nat.le_add_right _ _)
  rw [coeff_eq_zero_of_natDegree_lt beyond, zero_mul]

/-- A polynomial below some multiple of the factor folds below the multiple itself. -/
theorem degree_foldPolynomial_lt (positive : 0 < factor) (challenge : R) {f : R[X]} {bound : Nat}
    (small : f.degree < (bound * factor : Nat)) :
    (foldPolynomial factor challenge f).degree < bound := by
  -- From the bound on, every coefficient of the sum lies beyond the multiple.
  rw [degree_lt_iff_coeff_zero] at small ⊢
  intro exponent above
  rw [coeff_foldPolynomial positive]
  apply Finset.sum_eq_zero
  intro residue _
  have beyond : bound * factor ≤ exponent * factor + residue :=
    (Nat.mul_le_mul_right factor above).trans (Nat.le_add_right _ _)
  rw [small _ beyond, zero_mul]

/-- One coefficient of a fold, as a polynomial in the challenge. -/
noncomputable def challengePolynomial (factor exponent : Nat) (f : R[X]) : R[X] :=
  ∑ residue : Fin factor, C (f.coeff (exponent * factor + residue.val)) * X ^ residue.val

/-- At a challenge it is the coefficient of the fold at this challenge. -/
theorem eval_challengePolynomial (positive : 0 < factor) (challenge : R) (f : R[X]) (exponent : Nat) :
    (challengePolynomial factor exponent f).eval challenge
      = (foldPolynomial factor challenge f).coeff exponent := by
  -- Both are one and the same sum over the residues.
  rw [coeff_foldPolynomial positive, ← Fin.sum_univ_eq_sum_range (fun residue =>
    f.coeff (exponent * factor + residue) * challenge ^ residue), challengePolynomial, eval_finsetSum]
  simp only [eval_mul, eval_C, eval_pow, eval_X]

/-- Its own coefficients are those of the polynomial that the fold sums up. -/
theorem coeff_challengePolynomial (f : R[X]) (exponent : Nat) (residue : Fin factor) :
    (challengePolynomial factor exponent f).coeff residue.val
      = f.coeff (exponent * factor + residue.val) := by
  -- Every other term is at another power of the challenge.
  rw [challengePolynomial, finsetSum_coeff, Finset.sum_eq_single residue]
  · rw [coeff_C_mul, coeff_X_pow_self, mul_one]
  · intro other _ different
    rw [coeff_C_mul, coeff_X_pow, if_neg fun same => different (Fin.ext same.symm), mul_zero]
  · exact fun outside => absurd (Finset.mem_univ residue) outside

/-- A polynomial that is not below some multiple of the factor folds below the multiple itself at fewer
challenges than the factor says. -/
theorem encard_lowering_challenges_le [IsDomain R] (positive : 0 < factor) {f : R[X]} {bound : Nat}
    (high : ¬f.degree < (bound * factor : Nat)) :
    {challenge | (foldPolynomial factor challenge f).degree < bound}.encard ≤ (factor - 1 : Nat) := by
  classical
  rw [degree_lt_iff_coeff_zero] at high
  push Not at high
  obtain ⟨exponent, above, nonzero⟩ := high
  -- The high coefficient goes into one coefficient of the fold, which the fold cannot keep zero.
  have split : exponent / factor * factor + exponent % factor = exponent := Nat.div_add_mod' _ _
  have folded : bound ≤ exponent / factor := (Nat.le_div_iff_mul_le positive).mpr above
  have coefficient := coeff_challengePolynomial f (exponent / factor)
    ⟨exponent % factor, Nat.mod_lt _ positive⟩
  rw [split] at coefficient
  have present : challengePolynomial factor (exponent / factor) f ≠ 0 := by
    intro zero
    rw [zero, coeff_zero] at coefficient
    exact nonzero coefficient.symm
  -- Every challenge that lowers the degree is a root of that coefficient.
  have roots : {challenge | (foldPolynomial factor challenge f).degree < bound}
      ⊆ (challengePolynomial factor (exponent / factor) f).roots.toFinset := by
    intro challenge lowers
    rw [Finset.mem_coe, Multiset.mem_toFinset, mem_roots present, IsRoot,
      eval_challengePolynomial positive]
    exact (degree_lt_iff_coeff_zero _ _).mp lowers _ folded
  have degree : (challengePolynomial factor (exponent / factor) f).natDegree ≤ factor - 1 := by
    have below : (challengePolynomial factor (exponent / factor) f).degree < factor :=
      degree_sum_fin_lt _
    have := (natDegree_lt_iff_degree_lt present).mpr below
    omega
  calc
    _ ≤ ((challengePolynomial factor (exponent / factor) f).roots.toFinset : Set R).encard :=
      Set.encard_le_encard roots
    _ = (challengePolynomial factor (exponent / factor) f).roots.toFinset.card :=
      Set.encard_coe_eq_coe_finsetCard _
    _ ≤ (factor - 1 : Nat) := by
      exact_mod_cast (Multiset.toFinset_card_le _).trans ((card_roots' _).trans degree)

/-- A polynomial is put together from its parts, each spread out to the exponents it was taken from. -/
theorem eq_sum_expand_residuePart (positive : 0 < factor) (f : R[X]) :
    f = ∑ residue ∈ Finset.range factor,
      X ^ residue * expand R factor (residuePart factor residue f) := by
  -- The two sides are compared coefficient by coefficient.
  ext exponent
  rw [finsetSum_coeff]
  -- Only the part of the exponent's own residue contributes.
  rw [Finset.sum_eq_single (exponent % factor)]
  · have below : exponent % factor ≤ exponent := Nat.mod_le _ _
    have whole : factor ∣ exponent - exponent % factor := Nat.dvd_sub_mod exponent
    rw [coeff_X_pow_mul', if_pos below, coeff_expand positive, if_pos whole,
      coeff_residuePart positive, Nat.div_mul_cancel whole, Nat.sub_add_cancel below]
  · intro residue inside different
    rw [coeff_X_pow_mul', coeff_expand positive]
    split
    · rename_i below
      refine if_neg fun whole => different ?_
      rw [← Nat.sub_add_cancel below, Nat.add_mod, Nat.mod_eq_zero_of_dvd whole, Nat.zero_add,
        Nat.mod_mod, Nat.mod_eq_of_lt (Finset.mem_range.mp inside)]
    · rfl
  · exact fun outside => absurd (Finset.mem_range.mpr (Nat.mod_lt _ positive)) outside

/-- The parts at the power of a point, times the powers of the point itself, make up the polynomial. -/
theorem eval_eq_sum_residuePart (positive : 0 < factor) (f : R[X]) (point : R) :
    f.eval point = ∑ residue ∈ Finset.range factor,
      (residuePart factor residue f).eval (point ^ factor) * point ^ residue := by
  -- Spreading a part out evaluates it at the power of the point.
  conv_lhs => rw [eq_sum_expand_residuePart positive f]
  rw [eval_finsetSum]
  apply Finset.sum_congr rfl
  intro residue _
  rw [eval_mul, eval_pow, eval_X, expand_eval, mul_comm]

/-- On the points with one power in common, a polynomial agrees with a small one, whose values are those
of the folds at that power. -/
theorem exists_small_of_pow (positive : 0 < factor) (f : R[X]) (power : R) :
    ∃ small : R[X], small.degree < factor ∧
      (∀ point, point ^ factor = power → small.eval point = f.eval point) ∧
      ∀ challenge, small.eval challenge = (foldPolynomial factor challenge f).eval power := by
  -- The parts at the common power are the coefficients of the small polynomial.
  refine ⟨∑ residue : Fin factor,
    C ((residuePart factor residue f).eval power) * X ^ residue.val, degree_sum_fin_lt _, ?_, ?_⟩
  · -- At its own points it sums up the parts of the polynomial.
    intro point same
    subst same
    rw [eval_eq_sum_residuePart positive f, ← Fin.sum_univ_eq_sum_range (fun residue =>
      (residuePart factor residue f).eval (point ^ factor) * point ^ residue), eval_finsetSum]
    simp only [eval_mul, eval_C, eval_pow, eval_X]
  · -- At a challenge it sums up the parts as a fold does.
    intro challenge
    rw [foldPolynomial, ← Fin.sum_univ_eq_sum_range (fun residue =>
      C (challenge ^ residue) * residuePart factor residue f), eval_finsetSum, eval_finsetSum]
    simp only [eval_mul, eval_C, eval_pow, eval_X, mul_comm]

/-- A sum over a product of ranges, taken run by run. -/
theorem sum_range_mul (runs length : Nat) (term : Nat → R) :
    ∑ index ∈ Finset.range (runs * length), term index
      = ∑ run ∈ Finset.range runs, ∑ place ∈ Finset.range length, term (run * length + place) := by
  -- The last run stands behind all others.
  induction runs with
  | zero => simp
  | succ runs ih => rw [Nat.succ_mul, Finset.sum_range_add, ih, Finset.sum_range_succ]

/-- The coefficients after several folds: every exponent that has been folded away leaves the power of
each round's challenge that its digit in this place says. -/
theorem coeff_foldRounds (positive : 0 < factor) (challenge : Nat → R) (f : R[X])
    (rounds exponent : Nat) :
    (foldRounds factor challenge f rounds).coeff exponent
      = ∑ low ∈ Finset.range (factor ^ rounds), f.coeff (exponent * factor ^ rounds + low)
          * ∏ round ∈ Finset.range rounds, challenge round ^ (low / factor ^ round % factor) := by
  -- One more round splits every exponent into one more digit and the ones before.
  induction rounds generalizing exponent with
  | zero => simp [foldRounds]
  | succ rounds ih =>
    rw [foldRounds, coeff_foldPolynomial positive, pow_succ' factor rounds, sum_range_mul]
    apply Finset.sum_congr rfl
    intro digit inDigit
    rw [ih, Finset.sum_mul]
    apply Finset.sum_congr rfl
    intro low inLow
    have small : low < factor ^ rounds := Finset.mem_range.mp inLow
    have room : 0 < factor ^ rounds := Nat.zero_lt_of_lt small
    -- The last digit is the run, and the others are those of the place in the run.
    have last : (digit * factor ^ rounds + low) / factor ^ rounds % factor = digit := by
      rw [Nat.add_comm, Nat.add_mul_div_right _ _ room, Nat.div_eq_of_lt small, Nat.zero_add,
        Nat.mod_eq_of_lt (Finset.mem_range.mp inDigit)]
    have others : ∀ round ∈ Finset.range rounds,
        challenge round ^ ((digit * factor ^ rounds + low) / factor ^ round % factor)
          = challenge round ^ (low / factor ^ round % factor) := by
      intro round inside
      obtain ⟨rest, rfl⟩ := Nat.exists_eq_add_of_lt (Finset.mem_range.mp inside)
      have split : digit * factor ^ (round + rest + 1) + low
          = low + digit * factor ^ rest * factor * factor ^ round := by ring
      rw [split, Nat.add_mul_div_right _ _ (Nat.pow_pos positive), Nat.add_mul_mod_self_right]
    rw [Finset.prod_range_succ, last, Finset.prod_congr rfl others]
    have place : (exponent * factor + digit) * factor ^ rounds + low
        = exponent * (factor * factor ^ rounds) + (digit * factor ^ rounds + low) := by ring
    rw [place, mul_assoc]

/-- Every fold divides the degree by the factor once more. -/
theorem natDegree_foldRounds_le (positive : 0 < factor) (challenge : Nat → R) (f : R[X])
    (rounds : Nat) :
    (foldRounds factor challenge f rounds).natDegree ≤ f.natDegree / factor ^ rounds := by
  -- Quotients of quotients are quotients by the product.
  induction rounds with
  | zero => simp [foldRounds]
  | succ rounds ih =>
    calc
      _ ≤ (foldRounds factor challenge f rounds).natDegree / factor :=
        natDegree_foldPolynomial_le positive _ _
      _ ≤ f.natDegree / factor ^ rounds / factor := Nat.div_le_div_right ih
      _ = f.natDegree / factor ^ (rounds + 1) := by rw [Nat.div_div_eq_div_mul, ← pow_succ]

end Proximity
