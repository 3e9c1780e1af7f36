import Mathlib
import Proximity.Field.Roots
import Proximity.Proofs.Collect
import Proximity.Proofs.Field.Generator

/-! Roots of unity have their exact degree, and those of nested degrees are powers of each other; the
powers of a root are all elements that its degree makes one. -/

namespace Proximity

open scoped Element

variable {field : PrimeField}

/-- There is a root of unity exactly for the degrees that divide the order of the group. -/
theorem rootOfUnity_eq_ok_iff {degree : Nat} {root : Element field} :
    rootOfUnity field degree = .ok root ↔
      0 < degree ∧ degree ∣ field.order - 1 ∧
        root = field.primitiveElement ^ ((field.order - 1) / degree) := by
  -- A degree has to be positive, and to leave no remainder.
  unfold rootOfUnity
  rw [Int.toNat_natCast]
  split
  · -- Both checks have been passed, and the root is what is returned.
    rename_i divides
    have positive : 0 < degree := Int.natCast_pos.mp divides.1
    simp only [Except.ok.injEq, positive, Nat.dvd_of_mod_eq_zero divides.2, true_and, eq_comm]
  · -- One of the checks has failed.
    rename_i refused
    simp only [reduceCtorEq, false_iff]
    intro asked
    obtain ⟨positive, divides, _⟩ := asked
    exact refused ⟨Int.natCast_pos.mpr positive, Nat.mod_eq_zero_of_dvd divides⟩

/-- A positive divisor of the order of the group has a root of unity. -/
theorem exists_rootOfUnity {degree : Nat} (positive : 0 < degree) (divides : degree ∣ field.order - 1) :
    ∃ root : Element field, rootOfUnity field degree = .ok root :=
  ⟨_, rootOfUnity_eq_ok_iff.mpr ⟨positive, divides, rfl⟩⟩

/-- The root for a divisor of a degree is a power of the root for the degree. -/
theorem rootOfUnity_of_mul {outer inner : Nat} {root : Element field}
    (whole : rootOfUnity field ((outer * inner : Nat) : Int) = .ok root) :
    rootOfUnity field inner = .ok (root ^ outer) := by
  obtain ⟨positive, divides, rfl⟩ := rootOfUnity_eq_ok_iff.mp whole
  refine rootOfUnity_eq_ok_iff.mpr
    ⟨Nat.pos_of_mul_pos_left positive, (Nat.dvd_mul_left inner outer).trans divides, ?_⟩
  -- The exponent for the divisor is as many times the exponent for the degree.
  obtain ⟨rest, order⟩ := divides
  rw [← pow_mul, order, Nat.mul_div_cancel_left _ positive, Nat.mul_comm outer inner, Nat.mul_assoc,
    Nat.mul_div_cancel_left _ (Nat.pos_of_mul_pos_left positive), Nat.mul_comm]

/-- A root of unity is different from the roots of all smaller degrees. -/
theorem isPrimitiveRoot_of_rootOfUnity [field.Lawful] {degree : Nat} {root : Element field}
    (found : rootOfUnity field degree = .ok root) : IsPrimitiveRoot root degree := by
  -- The root is a power of the primitive element.
  obtain ⟨_, divides, rfl⟩ := rootOfUnity_eq_ok_iff.mp found
  -- A power of a primitive element has the order that is left of the whole.
  have order : IsPrimitiveRoot field.primitiveElement (field.order - 1) := by
    rw [← Element.orderOf_primitiveElement]
    exact IsPrimitiveRoot.orderOf _
  have above := field.one_lt_order
  exact order.pow (by omega) (Nat.div_mul_cancel divides).symm

/-- The degree of a root of unity is not zero in the field. -/
theorem natCast_degree_ne_zero [field.Lawful] {degree : Nat} {root : Element field}
    (found : rootOfUnity field degree = .ok root) : (degree : Element field) ≠ 0 := by
  obtain ⟨positive, divides, _⟩ := rootOfUnity_eq_ok_iff.mp found
  have above := field.one_lt_order
  -- The degree is smaller than the order.
  have below : degree ≤ field.order - 1 := Nat.le_of_dvd (by omega) divides
  -- A divisor of one less than the order is no multiple of the order.
  intro zero
  have multiple : (degree : ZMod field.order) = 0 := by
    rw [← Element.residue_ofNat, show (Element.ofNat degree : Element field) = 0 from zero,
      Element.residue_zero]
  have := Nat.le_of_dvd positive ((ZMod.natCast_eq_zero_iff _ _).mp multiple)
  omega

/-- A list of powers goes through the exponents in order. -/
theorem powersFrom_eq (base start : Element field) (count : Nat) :
    powersFrom base count start
      = List.ofFn fun exponent : Fin count => start * base ^ exponent.val := by
  induction count generalizing start with
  | zero => rfl
  | succ count ih =>
    -- The start takes up one factor of the base, which the later powers lack.
    rw [powersFrom, ih, List.ofFn_succ, Fin.val_zero, pow_zero, mul_one]
    refine congrArg (start :: ·) (congrArg List.ofFn (funext fun exponent => ?_))
    rw [Fin.val_succ, pow_succ', mul_assoc]

/-- The first powers of a base, from the zeroth on. -/
theorem powers_eq (base : Element field) (count : Nat) :
    powers base count = List.ofFn fun exponent : Fin count => base ^ exponent.val := by
  -- They start from one.
  simp only [powers, powersFrom_eq, one_mul]

/-- There are as many powers as asked for. -/
theorem length_powers (base : Element field) (count : Nat) : (powers base count).length = count := by
  rw [powers_eq, List.length_ofFn]

/-- The powers of an element are refused only if there is no room for them. -/
theorem powersOf_value (base : Element field) (count : Nat) :
    powersOf field base.value count
      = if field.hasRoom count then .ok (powers base count) else .error .oversized := by
  -- A count of a natural number is not refused as negative.
  have natural : ¬(count : Int) < 0 := by omega
  unfold powersOf
  rw [Element.ofInt?_eq_ok_iff.mpr rfl, ok_bind, if_neg natural, Int.toNat_natCast]
  -- What is left to refuse is a list without addresses.
  cases field.hasRoom count with
  | true => rfl
  | false => rfl

/-- There is a root of unity exactly for the positive divisors of the order of the group. -/
theorem exists_rootOfUnity_iff {degree : Int} :
    (∃ root : Element field, rootOfUnity field degree = .ok root) ↔
      1 ≤ degree ∧ degree ∣ (field.order - 1 : Nat) := by
  cases degree with
  | ofNat degree =>
    rw [Int.ofNat_eq_natCast, Int.natCast_dvd_natCast]
    constructor
    · -- Natural degrees are checked as they are.
      rintro ⟨root, found⟩
      obtain ⟨positive, divides, _⟩ := rootOfUnity_eq_ok_iff.mp found
      exact ⟨by omega, divides⟩
    · rintro ⟨positive, divides⟩
      exact exists_rootOfUnity (by omega) divides
  | negSucc below =>
    -- A negative degree is not looked at any further.
    constructor
    · rintro ⟨root, found⟩
      simp [rootOfUnity] at found
    · intro asked
      omega

section Lawful

variable [field.Lawful] {degree : Nat} {root : Element field}

/-- The powers of a root of unity are all different. -/
theorem nodup_powers (found : rootOfUnity field degree = .ok root) : (powers root degree).Nodup := by
  -- Exponents below the degree are told apart by the powers.
  rw [powers_eq, List.nodup_ofFn]
  exact fun left right same =>
    Fin.ext ((isPrimitiveRoot_of_rootOfUnity found).pow_inj left.isLt right.isLt same)

/-- The powers of a root of unity are the solutions of the equation that gives it its degree. -/
theorem mem_powers_iff (found : rootOfUnity field degree = .ok root) {element : Element field} :
    element ∈ powers root degree ↔ element ^ degree = 1 := by
  have primitive := isPrimitiveRoot_of_rootOfUnity found
  have positive := (rootOfUnity_eq_ok_iff.mp found).1
  rw [powers_eq, List.mem_ofFn]
  constructor
  · -- A power of the root goes around as often as its exponent says.
    rintro ⟨exponent, rfl⟩
    rw [pow_right_comm, primitive.pow_eq_one, one_pow]
  · -- A solution is a power of any primitive root.
    intro solves
    have : NeZero degree := ⟨positive.ne'⟩
    obtain ⟨exponent, inside, power⟩ := primitive.eq_pow_of_pow_eq_one solves
    exact ⟨⟨exponent, inside⟩, power⟩

end Lawful

/-- A root of unity is found exactly for the positive divisors of the order of the group. It has the exact
order asked for, its powers are different and all the solutions there are, and they are listed if there is
room for them; the roots of all degrees that divide its own are powers of it. -/
theorem roots_primitive_and_nested (field : PrimeField) [field.Lawful] (degree : Int) :
    ((∃ root : Element field, rootOfUnity field degree = .ok root) ↔
        1 ≤ degree ∧ degree ∣ (field.order - 1 : Nat)) ∧
      ∀ root : Element field, rootOfUnity field degree = .ok root →
        orderOf root = degree.toNat ∧
        powersOf field root.value degree
          = (if field.hasRoom degree.toNat then .ok (powers root degree.toNat)
            else .error .oversized) ∧
        (powers root degree.toNat).length = degree.toNat ∧ (powers root degree.toNat).Nodup ∧
        (∀ element, element ∈ powers root degree.toNat ↔ element ^ degree.toNat = 1) ∧
        ∀ part : Nat, (part : Int) ∣ degree → rootOfUnity field (degree / part) = .ok (root ^ part) := by
  refine ⟨exists_rootOfUnity_iff, fun root found => ?_⟩
  -- A degree that has a root is a natural number.
  obtain ⟨positive, _⟩ := exists_rootOfUnity_iff.mp ⟨root, found⟩
  obtain ⟨degree, rfl⟩ := Int.eq_ofNat_of_zero_le (show 0 ≤ degree by omega)
  -- It is positive, as it has a root.
  have whole : 0 < degree := by omega
  rw [Int.toNat_natCast]
  refine ⟨(isPrimitiveRoot_of_rootOfUnity found).eq_orderOf.symm, powersOf_value root degree,
    length_powers root degree, nodup_powers found, fun element => mem_powers_iff found, ?_⟩
  -- What is left of the degree names the root that a power leads to.
  intro part divides
  obtain ⟨inner, rfl⟩ := Int.natCast_dvd_natCast.mp divides
  rw [← Int.natCast_ediv, Nat.mul_div_cancel_left inner (Nat.pos_of_mul_pos_right whole)]
  exact rootOfUnity_of_mul found

/-- A sixth root of unity, the inverse of 2^32. -/
def sixthRoot : Element PrimeField.goldilocks :=
  Element.ofNat 18446744065119617026

/-- The powers of the sixth root, of which every other one is a third root of unity. -/
def sixthRoots : List (Element PrimeField.goldilocks) :=
  [1, 18446744065119617026, 18446744065119617025, 18446744069414584320, 4294967295, 4294967296].map
    Element.ofNat

/-- Six divides the order of the group, and so there are six sixth roots of unity. -/
theorem roots_primitive_and_nested_of_degree_six :
    PrimeField.goldilocks.Lawful ∧ (1 : Int) ≤ 6 ∧
      (6 : Int) ∣ (PrimeField.goldilocks.order - 1 : Nat) ∧
      rootOfUnity PrimeField.goldilocks 6 = .ok sixthRoot ∧ orderOf sixthRoot = 6 ∧
      powersOf PrimeField.goldilocks sixthRoot.value 6 = .ok sixthRoots ∧ sixthRoots.Nodup ∧
      (∀ element, element ∈ sixthRoots ↔ element ^ 6 = 1) ∧
      rootOfUnity PrimeField.goldilocks 3 = .ok (sixthRoot ^ 2) := by
  obtain ⟨exists_iff, primitive⟩ := roots_primitive_and_nested PrimeField.goldilocks 6
  -- The root is the generator to a sixth of the group's order, which is computed.
  have found : rootOfUnity PrimeField.goldilocks 6 = .ok sixthRoot := by decide +kernel
  obtain ⟨positive, divides⟩ := exists_iff.mp ⟨sixthRoot, found⟩
  obtain ⟨order, listed, _, distinct, solutions, nested⟩ := primitive sixthRoot found
  have computed : powers sixthRoot 6 = sixthRoots := by decide +kernel
  have six : Int.toNat 6 = 6 := rfl
  rw [six, computed] at listed distinct solutions
  exact ⟨inferInstance, positive, divides, found, order, listed, distinct, solutions,
    nested 2 (by decide)⟩

/-- The generator is the root of the largest degree, but the list of all its powers has no addresses. -/
theorem no_room_for_largest_degree :
    PrimeField.goldilocks.Lawful ∧ (1 : Int) ≤ 18446744069414584320 ∧
      (18446744069414584320 : Int) ∣ (PrimeField.goldilocks.order - 1 : Nat) ∧
      rootOfUnity PrimeField.goldilocks 18446744069414584320
        = .ok PrimeField.goldilocks.primitiveElement ∧
      powersOf PrimeField.goldilocks PrimeField.goldilocks.primitiveElement.value 18446744069414584320
        = .error .oversized := by
  -- The largest degree is the order of the group itself.
  refine ⟨inferInstance, by decide, by decide, by decide +kernel, ?_⟩
  exact (powersOf_value PrimeField.goldilocks.primitiveElement 18446744069414584320).trans
    (if_neg (by decide))

end Proximity
