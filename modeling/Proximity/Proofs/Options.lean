import Mathlib
import Proximity.Options

/-! A domain is folded as often as it takes to fit the limit, and not more often; what that leaves of it
is bounded on both sides, and tells whether every round can divide the domain. -/

namespace Proximity

section PowersOfTwo

variable {number other : Nat}

/-- Whatever divides a power of two is one. -/
theorem isPowerOfTwo_of_dvd (power : number.isPowerOfTwo) (divides : other ∣ number) :
    other.isPowerOfTwo := by
  -- The only prime factor is two.
  obtain ⟨exponent, rfl⟩ := power
  obtain ⟨smaller, _, same⟩ := (Nat.dvd_prime_pow Nat.prime_two).mp divides
  exact ⟨smaller, same⟩

/-- Among powers of two the smaller ones divide the larger ones. -/
theorem dvd_iff_le_of_isPowerOfTwo (otherPower : other.isPowerOfTwo) (power : number.isPowerOfTwo) :
    -- Both are read off the exponents.
    other ∣ number ↔ other ≤ number := by
  obtain ⟨small, rfl⟩ := otherPower
  obtain ⟨large, rfl⟩ := power
  rw [Nat.pow_dvd_pow_iff_le_right Nat.one_lt_two, Nat.pow_le_pow_iff_right Nat.one_lt_two]

/-- There is no power of two between one and its double. -/
theorem two_mul_le_of_isPowerOfTwo (otherPower : other.isPowerOfTwo) (power : number.isPowerOfTwo)
    (larger : other < number) : 2 * other ≤ number := by
  obtain ⟨small, rfl⟩ := otherPower
  obtain ⟨large, rfl⟩ := power
  -- The next power of two has an exponent larger by one.
  rw [← pow_succ']
  exact Nat.pow_le_pow_right Nat.two_pos ((Nat.pow_lt_pow_iff_right Nat.one_lt_two).mp larger)

end PowersOfTwo

namespace Options

variable {field : PrimeField}

/-- Factors are positive. -/
theorem foldingFactor_pos (options : Options field) : 0 < options.foldingFactor :=
  Nat.lt_of_lt_of_le Nat.zero_lt_two options.two_le_foldingFactor

/-- A size is within the limit after some divisions exactly if they are at least as many as
counted. -/
theorem div_pow_le_iff {limit factor size : Nat} (narrows : 2 ≤ factor) (folds : Nat) :
    size / factor ^ folds ≤ limit ↔ foldsWithin limit factor narrows size ≤ folds := by
  -- The count divides as long as the limit is exceeded, which the induction follows.
  induction size using foldsWithin.induct limit factor narrows generalizing folds with
  | case1 size exceeds ih =>
    -- The first division is needed, and leaves the count for the quotient.
    rw [foldsWithin, dif_pos exceeds]
    cases folds with
    -- No division is not enough.
    | zero =>
      rw [pow_zero, Nat.div_one]
      omega
    -- One division is taken off both sides.
    | succ folds =>
      rw [pow_succ', ← Nat.div_div_eq_div_mul, ih folds]
      omega
  | case2 size within =>
    -- Without a division the size is within the limit, and dividing makes it no larger.
    rw [foldsWithin, dif_neg within]
    have smaller := Nat.div_le_self size (factor ^ folds)
    omega

/-- A domain fits the remainder after some folds exactly if they are at least as many as there are
rounds before the last. -/
theorem div_pow_le_maxRemainderSize_iff (options : Options field) (size folds : Nat) :
    size / options.foldingFactor ^ folds ≤ options.maxRemainderSize ↔
      options.numLayers size ≤ folds := by
  -- The size is a number, so it is counted as it is.
  rw [numLayers, Int.toNat_natCast]
  exact div_pow_le_iff options.two_le_foldingFactor folds

/-- Nothing but the factor and the limit decides on the number of rounds. -/
theorem numLayers_congr {options others : Options field}
    (factor : options.foldingFactor = others.foldingFactor)
    (limit : options.maxRemainderSize = others.maxRemainderSize) (size : Int) :
    options.numLayers size = others.numLayers size := by
  simp only [numLayers, factor, limit]

/-- Powers of the factor are powers of two. -/
theorem isPowerOfTwo_pow (options : Options field) (folds : Nat) :
    (options.foldingFactor ^ folds).isPowerOfTwo := by
  -- The factor's exponent is taken as often as the factor is.
  obtain ⟨exponent, power⟩ := options.isPowerOfTwo_foldingFactor
  exact ⟨exponent * folds, by rw [power, pow_mul]⟩

/-- The factor divides the limit. -/
theorem foldingFactor_dvd_maxRemainderSize (options : Options field) :
    options.foldingFactor ∣ options.maxRemainderSize :=
  (dvd_iff_le_of_isPowerOfTwo options.isPowerOfTwo_foldingFactor
    options.isPowerOfTwo_maxRemainderSize).mpr options.foldingFactor_le

/-- Integers of either sign are within the limit after some folds exactly if these are at least as many
as counted. -/
theorem fdiv_pow_le_iff (options : Options field) (size : Int) (folds : Nat) :
    size.fdiv (options.foldingFactor ^ folds : Nat) ≤ options.maxRemainderSize ↔
      options.numLayers size ≤ folds := by
  cases size with
  -- From zero on, floors of integers are those of numbers.
  | ofNat size =>
    rw [Int.ofNat_eq_natCast, ← options.div_pow_le_maxRemainderSize_iff, ← Int.ofNat_fdiv,
      Int.ofNat_le]
  | negSucc below =>
    -- A negative size is within any limit, and is not folded.
    have unfolded : options.numLayers (.negSucc below) = 0 := by
      rw [numLayers, Int.toNat_negSucc, foldsWithin, dif_neg (Nat.not_lt_zero _)]
    have divisor : (0 : Int) < (options.foldingFactor ^ folds : Nat) :=
      Int.natCast_pos.mpr (Nat.pow_pos options.foldingFactor_pos)
    have negative := Int.ediv_neg_of_neg_of_pos (Int.negSucc_lt_zero below) divisor
    rw [unfolded, Int.fdiv_eq_ediv_of_nonneg _ divisor.le]
    omega

/-- What is left of a domain whose size is a number. -/
theorem remainderSize_natCast (options : Options field) (size : Nat) :
    options.remainderSize size
      = ((size / options.foldingFactor ^ options.numLayers size : Nat) : Int) :=
  (Int.ofNat_fdiv ..).symm

/-- A domain beyond the limit is folded, and is still beyond the limit before its last fold. -/
theorem exists_lastFold (options : Options field) {size : Nat}
    (exceeds : options.maxRemainderSize < size) :
    ∃ folds, options.numLayers size = folds + 1 ∧
      options.maxRemainderSize < size / options.foldingFactor ^ folds := by
  -- Without a fold the domain would be within the limit from the start.
  have folded : options.numLayers size ≠ 0 := by
    intro none
    have within := (options.div_pow_le_maxRemainderSize_iff size 0).mpr none.le
    rw [pow_zero, Nat.div_one] at within
    omega
  obtain ⟨folds, count⟩ := Nat.exists_eq_succ_of_ne_zero folded
  refine ⟨folds, count, Nat.lt_of_not_le fun within => ?_⟩
  -- One fold less is not enough, as the count is the least.
  have enough := (options.div_pow_le_maxRemainderSize_iff size folds).mp within
  omega

/-- A multiple of the factor that the last fold does not start below is within the remainder as often
as the factor says. -/
theorem le_mul_remainderSize (options : Options field) {size folds bound : Nat}
    (count : options.numLayers size = folds + 1) (divides : options.foldingFactor ∣ bound)
    (before : bound ≤ size / options.foldingFactor ^ folds) :
    (bound : Int) ≤ options.foldingFactor * options.remainderSize size := by
  -- Dividing once more by the factor keeps the order.
  have quotient := Nat.div_le_div_right (c := options.foldingFactor) before
  rw [remainderSize_natCast, count, pow_succ, ← Nat.div_div_eq_div_mul, ← Nat.cast_mul,
    Int.ofNat_le]
  calc bound = options.foldingFactor * (bound / options.foldingFactor) :=
        (Nat.mul_div_cancel' divides).symm
    _ ≤ _ := Nat.mul_le_mul_left _ quotient

/-- A power of two can be divided in every round exactly if the remainder is no shorter than the
factor. -/
theorem pow_dvd_iff_le_remainderSize (options : Options field) {size : Nat}
    (power : size.isPowerOfTwo) :
    options.foldingFactor ^ (options.numLayers size + 1) ∣ size ↔
      (options.foldingFactor : Int) ≤ options.remainderSize size := by
  -- The power in question divides the size if it is not larger, which the quotient tells.
  rw [dvd_iff_le_of_isPowerOfTwo (options.isPowerOfTwo_pow _) power, remainderSize_natCast,
    Int.ofNat_le, Nat.le_div_iff_mul_le (Nat.pow_pos options.foldingFactor_pos), pow_succ']

/-- Beyond the limit, a power of two leaves twice the limit over the factor at least. -/
theorem two_mul_limit_le_mul_remainderSize (options : Options field) {size : Nat}
    (power : size.isPowerOfTwo) (exceeds : options.maxRemainderSize < size) :
    ((2 * options.maxRemainderSize : Nat) : Int)
      ≤ options.foldingFactor * options.remainderSize size := by
  obtain ⟨folds, count, above⟩ := options.exists_lastFold exceeds
  -- So many folds divide the domain, since they leave something of it.
  have room : options.foldingFactor ^ folds ≤ size :=
    Nat.le_of_not_lt fun less => by
      rw [Nat.div_eq_of_lt less] at above
      omega
  -- The quotient is a power of two above the limit, and so twice the limit at least.
  have divides := (dvd_iff_le_of_isPowerOfTwo (options.isPowerOfTwo_pow folds) power).mpr room
  have before := isPowerOfTwo_of_dvd power (Nat.div_dvd_of_dvd divides)
  exact options.le_mul_remainderSize count (options.foldingFactor_dvd_maxRemainderSize.mul_left 2)
    (two_mul_le_of_isPowerOfTwo options.isPowerOfTwo_maxRemainderSize before above)

/-- The domain of twice the limit is folded once. -/
theorem numLayers_two_mul (options : Options field) :
    options.numLayers ((2 * options.maxRemainderSize : Nat) : Int) = 1 := by
  have positive := Nat.pos_of_isPowerOfTwo options.isPowerOfTwo_maxRemainderSize
  have narrows := options.two_le_foldingFactor
  -- Halving it is enough, and the factor is no less than two.
  have once : options.numLayers ((2 * options.maxRemainderSize : Nat) : Int) ≤ 1 := by
    rw [← options.div_pow_le_maxRemainderSize_iff, pow_one]
    exact Nat.div_le_of_le_mul (Nat.mul_le_mul_right _ narrows)
  -- As it is beyond the limit, it is folded at all.
  have exceeds : options.maxRemainderSize < 2 * options.maxRemainderSize := by omega
  obtain ⟨folds, count, _⟩ := options.exists_lastFold exceeds
  omega

/-- Every power of two from the factor on can be divided in all its rounds exactly if the factor squared
is at most twice the limit. -/
theorem forall_pow_dvd_iff (options : Options field) :
    (∀ size : Nat, size.isPowerOfTwo → options.foldingFactor ≤ size →
        options.foldingFactor ^ (options.numLayers size + 1) ∣ size) ↔
      options.foldingFactor ^ 2 ≤ 2 * options.maxRemainderSize := by
  have positive := options.foldingFactor_pos
  constructor
  · intro always
    -- Twice the limit is the domain of which the last fold leaves least.
    have power : (2 * options.maxRemainderSize).isPowerOfTwo := by
      rw [Nat.mul_comm]
      exact Nat.isPowerOfTwo_mul_two_of_isPowerOfTwo options.isPowerOfTwo_maxRemainderSize
    have large : options.foldingFactor ≤ 2 * options.maxRemainderSize := by
      have ordered := options.foldingFactor_le
      omega
    have divides := always _ power large
    -- One round and the remainder's own have to divide it, which takes it to be as large.
    rw [numLayers_two_mul] at divides
    exact Nat.le_of_dvd (Nat.pos_of_isPowerOfTwo power) divides
  · -- Both kinds of domains have enough left, for different reasons.
    intro room size power large
    rw [options.pow_dvd_iff_le_remainderSize power]
    rcases Nat.lt_or_ge options.maxRemainderSize size with exceeds | within
    · -- The factor times the remainder covers the factor squared.
      have left := options.two_mul_limit_le_mul_remainderSize power exceeds
      have square : ((options.foldingFactor : Int) * options.foldingFactor)
          ≤ options.foldingFactor * options.remainderSize size := by
        rw [← pow_two]
        exact le_trans (by exact_mod_cast room) left
      exact le_of_mul_le_mul_left square (Int.natCast_pos.mpr positive)
    · -- A domain within the limit is the remainder itself.
      have unfolded : options.numLayers size = 0 := by
        rw [← Nat.le_zero, ← options.div_pow_le_maxRemainderSize_iff, pow_zero, Nat.div_one]
        exact within
      rw [remainderSize_natCast, unfolded, pow_zero, Nat.div_one]
      exact Int.ofNat_le.mpr large

end Options

end Proximity
