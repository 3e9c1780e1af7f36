import Mathlib
import Proximity.Field.Catalogue

/-! Elements stand for residue classes, so their arithmetic is that of a ring, and of a field for a
prime order. -/

namespace Proximity

variable {field : PrimeField}

/-- What a field promises beyond its bounds: its order is prime, and the powers of its generator are
all nonzero elements. -/
class PrimeField.Lawful (field : PrimeField) : Prop where
  prime : field.order.Prime
  orderOf_generator : orderOf (field.generator : ZMod field.order) = field.order - 1

/-- The known field of order 17. -/
def seventeen : PrimeField :=
  PrimeField.catalogue[5]

instance : seventeen.Lawful where
  prime := by
    show Nat.Prime 17
    norm_num
  orderOf_generator := by
    show orderOf (3 : ZMod 17) = 16
    -- The order divides 2^4, and the eighth power is not one.
    exact orderOf_eq_prime_pow (p := 2) (n := 3) (by decide) (by decide)

instance (field : PrimeField) : NeZero field.order :=
  ⟨Nat.ne_of_gt (Nat.lt_trans Nat.zero_lt_one field.one_lt_order)⟩

/-- A number takes no more binary digits than its length says. -/
theorem lt_two_pow_bitLength (value : Nat) : value < 2 ^ bitLength value := by
  -- Zero has no digits, and every other number one more than its logarithm.
  unfold bitLength
  split
  · omega
  · exact Nat.lt_log2_self

/-- A number has come up to every power of two with fewer digits than it has. -/
theorem two_pow_le_of_lt_bitLength {digits value : Nat} (fewer : digits < bitLength value) :
    2 ^ digits ≤ value := by
  -- Zero has no digits at all.
  unfold bitLength at fewer
  split at fewer
  · omega
  · rename_i positive
    exact (Nat.pow_le_pow_right Nat.two_pos (Nat.le_of_lt_succ fewer)).trans
      (Nat.log2_self_le positive)

namespace PrimeField

/-- All elements have as many binary digits as the largest one. -/
theorem order_le_two_pow_bits (field : PrimeField) : field.order ≤ 2 ^ field.bits := by
  have above := field.one_lt_order
  have digits : field.order - 1 < 2 ^ field.bits := lt_two_pow_bitLength _
  omega

/-- More than half of the numbers with so many binary digits are elements. -/
theorem two_pow_bits_lt (field : PrimeField) : 2 ^ field.bits < 2 * field.order := by
  have above := field.one_lt_order
  -- The largest element has a highest digit, as it is not zero, and has come up to it.
  obtain ⟨lower, count⟩ : ∃ lower, field.bits = lower + 1 := by
    refine Nat.exists_eq_succ_of_ne_zero fun none => ?_
    have enough := field.order_le_two_pow_bits
    rw [none, pow_zero] at enough
    omega
  have highest : 2 ^ lower ≤ field.order - 1 :=
    two_pow_le_of_lt_bitLength (lt_of_lt_of_eq (Nat.lt_succ_self lower) count.symm)
  rw [count, pow_succ]
  omega

/-- Whole bytes take in all the binary digits of elements. -/
theorem bits_le_mul_byteLength (field : PrimeField) : field.bits ≤ 8 * field.byteLength := by
  unfold byteLength
  omega

end PrimeField

namespace Element

/-- The residue class an element stands for. -/
def residue (element : Element field) : ZMod field.order :=
  element.value

/-- The element that stands for a residue class. -/
def ofResidue (residue : ZMod field.order) : Element field :=
  ofNat residue.val

/-- Different elements stand for different residue classes. -/
theorem residue_injective : Function.Injective (residue : Element field → ZMod field.order) := by
  -- Both values are the least ones of their classes.
  intro left right same
  have values := congrArg ZMod.val same
  simp only [residue, ZMod.val_natCast] at values
  rw [Nat.mod_eq_of_lt left.value_lt, Nat.mod_eq_of_lt right.value_lt] at values
  exact Element.ext values

/-- A number's element stands for the number's class. -/
@[simp] theorem residue_ofNat (value : Nat) :
    (ofNat value : Element field).residue = (value : ZMod field.order) :=
  ZMod.natCast_mod value field.order

/-- Every residue class has its element. -/
@[simp] theorem residue_ofResidue (residue : ZMod field.order) :
    (ofResidue residue).residue = residue := by
  rw [ofResidue, residue_ofNat, ZMod.natCast_zmod_val]

/-- Zero stands for the class of zero. -/
@[simp] theorem residue_zero : (0 : Element field).residue = 0 := by
  rw [show (0 : Element field) = ofNat 0 from rfl, residue_ofNat, Nat.cast_zero]

/-- One stands for the class of one. -/
@[simp] theorem residue_one : (1 : Element field).residue = 1 := by
  rw [show (1 : Element field) = ofNat 1 from rfl, residue_ofNat, Nat.cast_one]

/-- Sums are taken class by class. -/
@[simp] theorem residue_add (left right : Element field) :
    (left + right).residue = left.residue + right.residue := by
  rw [show left + right = ofNat (left.value + right.value) from rfl, residue_ofNat, Nat.cast_add]
  rfl

/-- Products are taken class by class. -/
@[simp] theorem residue_mul (left right : Element field) :
    (left * right).residue = left.residue * right.residue := by
  rw [show left * right = ofNat (left.value * right.value) from rfl, residue_ofNat, Nat.cast_mul]
  rfl

/-- Repeated squaring reaches the power once there is a step for each binary digit. -/
theorem residue_powWithin {digits exponent : Nat} (enough : exponent < 2 ^ digits)
    (base : Element field) : (powWithin digits base exponent).residue = base.residue ^ exponent := by
  induction digits generalizing base exponent with
  | zero =>
    -- Without a digit the exponent can only be zero.
    have none : exponent = 0 := by simpa using enough
    simp [powWithin, none]
  | succ digits ih =>
    -- Half the exponent of the square is left, and one factor if the exponent is odd.
    have half : exponent / 2 < 2 ^ digits := by omega
    have squares : (powWithin digits (base * base) (exponent / 2)).residue
        = base.residue ^ (2 * (exponent / 2)) := by
      rw [ih half, residue_mul, pow_mul, pow_two]
    by_cases even : exponent % 2 = 0
    · -- An even exponent is twice its half.
      have whole : 2 * (exponent / 2) = exponent := by omega
      simp only [powWithin, if_pos even, squares, whole]
    · -- An odd exponent takes the base once more.
      have whole : 2 * (exponent / 2) + 1 = exponent := by omega
      simp only [powWithin, if_neg even, residue_mul, squares, ← pow_succ, whole]

/-- Powers are taken class by class. -/
@[simp] theorem residue_pow (base : Element field) (exponent : Nat) :
    (base ^ exponent).residue = base.residue ^ exponent :=
  residue_powWithin (lt_two_pow_bitLength exponent) base

scoped instance : Neg (Element field) := ⟨fun element => ofResidue (-element.residue)⟩

scoped instance : Sub (Element field) :=
  ⟨fun left right => ofResidue (left.residue - right.residue)⟩

scoped instance : SMul Nat (Element field) :=
  ⟨fun count element => ofResidue (count • element.residue)⟩

scoped instance : SMul Int (Element field) :=
  ⟨fun count element => ofResidue (count • element.residue)⟩

scoped instance : NatCast (Element field) := ⟨ofNat⟩

scoped instance : IntCast (Element field) := ⟨fun value => ofResidue value⟩

/-- Elements form a commutative ring with the operations that run. -/
scoped instance commRing : CommRing (Element field) :=
  -- Every operation has been read class by class, and classes form a ring.
  residue_injective.commRing residue residue_zero residue_one residue_add residue_mul
    (fun _ => residue_ofResidue _) (fun _ _ => residue_ofResidue _)
    (fun _ _ => residue_ofResidue _) (fun _ _ => residue_ofResidue _)
    residue_pow residue_ofNat (fun _ => residue_ofResidue _)

/-- An integer leads to the element of which it is the least residue. -/
theorem ofInt?_eq_ok_iff {value : Int} {element : Element field} :
    ofInt? value = .ok element ↔ value = element.value := by
  -- Only an integer from zero up to the order names an element.
  cases value with
  | ofNat residue =>
    simp only [ofInt?, Int.ofNat_eq_natCast, Nat.cast_inj]
    split
    · simp only [Except.ok.injEq, Element.ext_iff]
    · rename_i outside
      simp only [reduceCtorEq, false_iff]
      rintro rfl
      exact outside element.value_lt
  | negSucc below => simp [ofInt?]

/-- Integers from zero up to the order are the least residues of elements. -/
theorem exists_value_eq {value : Int} (natural : 0 ≤ value) (inside : value < field.order) :
    ∃ element : Element field, value = element.value :=
  ⟨⟨value.toNat, by omega⟩, (Int.toNat_of_nonneg natural).symm⟩

/-- Only zero has the least residue zero. -/
theorem value_pos {element : Element field} (nonzero : element ≠ 0) : 0 < element.value :=
  Nat.pos_of_ne_zero fun zero => nonzero (Element.ext (by rw [zero]; rfl))

/-- Only zero stands for the class of zero. -/
theorem residue_ne_zero {element : Element field} (nonzero : element ≠ 0) : element.residue ≠ 0 := by
  intro zero
  exact nonzero (residue_injective (zero.trans residue_zero.symm))

instance [field.Lawful] : Fact field.order.Prime :=
  ⟨PrimeField.Lawful.prime⟩

section Prime

variable [Fact field.order.Prime]

/-- Inverses are taken class by class. -/
theorem residue_inverse (element : Element field) :
    element.inverse.residue = element.residue⁻¹ := by
  -- Zero is kept, as the inverse of the class of zero is.
  unfold inverse
  split
  · rename_i zero
    rw [zero, residue_zero, inv_zero]
  · rename_i nonzero
    -- The order of the group turns one factor less than all into the inverse.
    apply eq_inv_of_mul_eq_one_left
    have above := field.one_lt_order
    have exponent : field.order - 2 + 1 = field.order - 1 := by omega
    rw [residue_pow, ← pow_succ, exponent, ZMod.pow_card_sub_one_eq_one (residue_ne_zero nonzero)]

/-- An element other than zero cancels with its inverse. -/
theorem mul_inverse_self {element : Element field} (nonzero : element ≠ 0) :
    element * element.inverse = 1 := by
  apply residue_injective
  rw [residue_mul, residue_inverse, mul_inv_cancel₀ (residue_ne_zero nonzero), residue_one]

/-- The inverse of a product is the product of the inverses. -/
theorem inverse_mul (left right : Element field) :
    (left * right).inverse = left.inverse * right.inverse := by
  apply residue_injective
  rw [residue_inverse, residue_mul, mul_inv, residue_mul, residue_inverse, residue_inverse]

/-- Zero and one are different. -/
theorem nontrivial : Nontrivial (Element field) :=
  ⟨0, 1, fun same => by simpa using congrArg residue same⟩

/-- A product vanishes only with one of its factors. -/
theorem noZeroDivisors : NoZeroDivisors (Element field) :=
  residue_injective.noZeroDivisors residue residue_zero residue_mul

end Prime

variable [field.Lawful]

/-- Elements of a prime order form a field with the operations that run. -/
scoped instance instField : Field (Element field) where
  __ := commRing
  inv := inverse
  exists_pair_ne := ⟨0, 1, fun same => by simpa using congrArg residue same⟩
  mul_inv_cancel _ nonzero := mul_inverse_self nonzero
  inv_zero := if_pos rfl
  nnqsmul := _
  nnqsmul_def := fun _ _ => rfl
  qsmul := _
  qsmul_def := fun _ _ => rfl

/-- The generator's powers are all nonzero elements. -/
theorem orderOf_primitiveElement : orderOf field.primitiveElement = field.order - 1 := by
  -- Both have the same powers equal to one.
  have order : orderOf (field.generator : ZMod field.order) = field.order - 1 :=
    PrimeField.Lawful.orderOf_generator
  rw [← order, orderOf_eq_orderOf_iff]
  intro exponent
  rw [← residue_injective.eq_iff, residue_pow, residue_one]
  rfl

end Element

end Proximity
