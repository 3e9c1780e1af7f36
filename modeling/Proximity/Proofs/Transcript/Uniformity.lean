import Mathlib
import Proximity.Field.Catalogue
import Proximity.Proofs.Transcript.Rejection

/-! Sampling prefers no element and no position: each of them is spelled by equally many digests, and
more than half of all digests spell an element. -/

namespace Proximity

section LowBits

variable {width bits size : Nat}

/-- The lowest binary digits are a remainder of the whole digest if the bytes that are read cover
them. -/
theorem lowBits_eq_mod (covered : bits ≤ 8 * width) (digest : Bytes) :
    lowBits width bits digest = Bytes.toNat digest % 2 ^ bits := by
  -- What the bytes beyond the width add is a multiple of what is kept.
  have divides : 2 ^ bits ∣ 256 ^ width :=
    (pow_dvd_pow 2 covered).trans (pow_mul 2 8 width).dvd
  -- The bytes that are read are a remainder themselves.
  show Bytes.toNat (digest.take width) % 2 ^ bits = _
  rw [Bytes.toNat_take, Nat.mod_mod_of_dvd _ divides]

/-- No remainder has more digits than are kept. -/
theorem lowBits_lt (width bits : Nat) (digest : Bytes) : lowBits width bits digest < 2 ^ bits :=
  Nat.mod_lt _ (Nat.two_pow_pos bits)

/-- What a digest's lowest binary digits spell, and what the others do. -/
def partsOf (bits : Nat) (digest : Bytes) : Nat × Nat :=
  (Bytes.toNat digest % 2 ^ bits, Bytes.toNat digest / 2 ^ bits)

/-- The digest whose lowest binary digits spell one number and whose others spell another. -/
def digestOf (size bits : Nat) (parts : Nat × Nat) : Bytes :=
  Bytes.ofNat size (parts.1 + 2 ^ bits * parts.2)

/-- A digest is put together again from its parts. -/
theorem digestOf_partsOf {digest : Bytes} (length : digest.length = size) :
    digestOf size bits (partsOf bits digest) = digest := by
  -- Remainder and quotient give the number back, and the number its bytes.
  rw [digestOf, partsOf, Nat.mod_add_div, ← length, Bytes.ofNat_toNat]

/-- The other digits of a digest leave out the lowest ones. -/
theorem partsOf_snd_lt (fits : bits ≤ 8 * size) {digest : Bytes} (length : digest.length = size) :
    (partsOf bits digest).2 < 2 ^ (8 * size - bits) := by
  -- The quotient is bounded as the whole number is.
  apply Nat.div_lt_of_lt_mul
  rw [pow_mul_pow_sub 2 fits, pow_mul]
  exact length ▸ Bytes.toNat_lt digest

/-- The parts of a digest are those that it is put together from. -/
theorem partsOf_digestOf (fits : bits ≤ 8 * size) {low high : Nat} (small : low < 2 ^ bits)
    (rest : high < 2 ^ (8 * size - bits)) :
    partsOf bits (digestOf size bits (low, high)) = (low, high) := by
  -- The number put together from the parts fits the digest, so it is read back as it is.
  have number : Bytes.toNat (digestOf size bits (low, high)) = low + 2 ^ bits * high := by
    apply Bytes.toNat_ofNat
    calc low + 2 ^ bits * high < 2 ^ bits * (high + 1) := by
          rw [Nat.mul_succ]
          omega
      _ ≤ 2 ^ bits * 2 ^ (8 * size - bits) := Nat.mul_le_mul_left _ rest
      _ = 2 ^ (8 * size) := pow_mul_pow_sub 2 fits
      _ = Nat.pow 256 size := pow_mul 2 8 size
  -- The lower part is the remainder and the higher one the quotient.
  rw [partsOf, number, Nat.add_mul_mod_self_left, Nat.mod_eq_of_lt small,
    Nat.add_mul_div_left _ _ (Nat.two_pow_pos bits), Nat.div_eq_of_lt small, Nat.zero_add]

/-- The digests of one size whose lowest digits spell one of some values are as many as the values
times the ways to choose the other digits. -/
theorem encard_lowBits_mem (covered : bits ≤ 8 * width) (fits : bits ≤ 8 * size)
    {values : Finset Nat} (inside : ∀ value ∈ values, value < 2 ^ bits) :
    {digest : Bytes | digest.length = size ∧ lowBits width bits digest ∈ values}.encard
      = (values.card * 2 ^ (8 * size - bits) : Nat) := by
  -- Digests and pairs of such parts are mapped to each other.
  have together : {digest : Bytes | digest.length = size ∧ lowBits width bits digest ∈ values}
      = digestOf size bits '' (values ×ˢ Finset.range (2 ^ (8 * size - bits)) : Finset (Nat × Nat)) := by
    ext digest
    simp only [lowBits_eq_mod covered, Set.mem_ofPred_eq, Set.mem_image, Finset.mem_coe,
      Finset.mem_product, Finset.mem_range]
    constructor
    · -- A digest comes from its own parts.
      rintro ⟨length, spelled⟩
      exact ⟨partsOf bits digest, ⟨spelled, partsOf_snd_lt fits length⟩, digestOf_partsOf length⟩
    · -- What is put together from two parts has the first of them as its lowest digits.
      rintro ⟨⟨low, high⟩, ⟨chosen, rest⟩, rfl⟩
      refine ⟨Bytes.length_ofNat .., ?_⟩
      show (partsOf bits (digestOf size bits (low, high))).1 ∈ values
      rw [partsOf_digestOf fits (inside low chosen) rest]
      exact chosen
  -- Different parts are put together to different digests, as they can be read back.
  have apart : Set.LeftInvOn (partsOf bits) (digestOf size bits)
      (values ×ˢ Finset.range (2 ^ (8 * size - bits)) : Finset (Nat × Nat)) := by
    intro parts member
    simp only [Finset.mem_coe, Finset.mem_product, Finset.mem_range] at member
    exact partsOf_digestOf fits (inside _ member.1) member.2
  rw [together, apart.injOn.encard_image, Set.encard_coe_eq_coe_finsetCard, Finset.card_product,
    Finset.card_range]

/-- Each value is spelled by equally many of them. -/
theorem encard_lowBits_eq (covered : bits ≤ 8 * width) (fits : bits ≤ 8 * size) {value : Nat}
    (inside : value < 2 ^ bits) :
    {digest : Bytes | digest.length = size ∧ lowBits width bits digest = value}.encard
      = (2 ^ (8 * size - bits) : Nat) := by
  -- A value by itself is a set of one value.
  have only : ∀ other ∈ ({value} : Finset Nat), other < 2 ^ bits := fun other member =>
    Finset.mem_singleton.mp member ▸ inside
  simpa only [Finset.mem_singleton, Finset.card_singleton, Nat.one_mul]
    using encard_lowBits_mem covered fits only

/-- There are as many digests of one size as ways to choose all of their binary digits. -/
theorem encard_digests (size : Nat) :
    {digest : Bytes | digest.length = size}.encard = (2 ^ (8 * size) : Nat) := by
  -- Without a binary digit all of them spell zero.
  have spelled : ∀ digest : Bytes, lowBits 0 0 digest = 0 := fun digest => Nat.mod_one _
  have counted := encard_lowBits_eq (Nat.zero_le (8 * 0)) (Nat.zero_le (8 * size)) Nat.one_pos
  simpa only [spelled, and_true, Nat.sub_zero] using counted

end LowBits

namespace Channel

variable {field : PrimeField}

/-- A digest is refused exactly if it spells one of the numbers from the order on. -/
theorem candidate?_eq_none_iff_mem {digest : Bytes} :
    candidate? field digest = none ↔
      lowBits field.byteLength field.bits digest ∈ Finset.Ico field.order (2 ^ field.bits) := by
  -- What is refused is what spells no residue, and no digest spells more than its digits allow.
  rw [candidate?_eq_none_iff, Finset.mem_Ico]
  exact ⟨fun beyond => ⟨beyond, lowBits_lt ..⟩, fun spelled => spelled.1⟩

variable {size : Nat}

/-- Equally many digests are turned into every element. -/
theorem encard_candidate?_eq_some (fits : field.bits ≤ 8 * size) (element : Element field) :
    {digest : Bytes | digest.length = size ∧ candidate? field digest = some element}.encard
      = (2 ^ (8 * size - field.bits) : Nat) := by
  -- A residue is below the order, so the digits that are kept can spell it.
  have inside := lt_of_lt_of_le element.value_lt field.order_le_two_pow_bits
  simpa only [candidate?_eq_some_iff]
    using encard_lowBits_eq field.bits_le_mul_byteLength fits inside

/-- Fewer than half of all digests are refused. -/
theorem two_mul_encard_candidate?_eq_none_lt (field : PrimeField) (fits : field.bits ≤ 8 * size) :
    2 * {digest : Bytes | digest.length = size ∧ candidate? field digest = none}.encard
      < (2 ^ (8 * size) : Nat) := by
  have inside : ∀ value ∈ Finset.Ico field.order (2 ^ field.bits), value < 2 ^ field.bits :=
    fun value member => (Finset.mem_Ico.mp member).2
  -- The mask is the tightest one: with one digit less, the largest element would be lost.
  have half := field.two_pow_bits_lt
  have some := Nat.two_pow_pos field.bits
  simp only [candidate?_eq_none_iff_mem, encard_lowBits_mem field.bits_le_mul_byteLength fits inside,
    Nat.card_Ico]
  -- The refused values are less than half of all that the digits can spell.
  have refused :
      2 * ((2 ^ field.bits - field.order) * 2 ^ (8 * size - field.bits)) < 2 ^ (8 * size) := by
    calc 2 * ((2 ^ field.bits - field.order) * 2 ^ (8 * size - field.bits))
        = (2 * (2 ^ field.bits - field.order)) * 2 ^ (8 * size - field.bits) :=
          (Nat.mul_assoc ..).symm
      _ < 2 ^ field.bits * 2 ^ (8 * size - field.bits) :=
        Nat.mul_lt_mul_of_pos_right (by omega) (Nat.two_pow_pos _)
      _ = 2 ^ (8 * size) := pow_mul_pow_sub 2 fits
  exact_mod_cast refused

/-- Equally many digests are turned into every position of a domain. -/
theorem encard_position_eq {domainSize place : Nat} (power : domainSize.isPowerOfTwo)
    (covered : domainSize ≤ 2 ^ 64) (fits : domainSize ≤ 2 ^ (8 * size)) (inside : place < domainSize) :
    {digest : Bytes | digest.length = size ∧ position domainSize digest = place}.encard
      = (2 ^ (8 * size) / domainSize : Nat) := by
  -- The mask leaves just the positions of the domain, so each of them is one of its values.
  obtain ⟨digits, rfl⟩ := power
  have fewer := (Nat.pow_le_pow_iff_right Nat.one_lt_two).mp fits
  have narrow : digits ≤ 8 * 8 := (Nat.pow_le_pow_iff_right Nat.one_lt_two).mp covered
  -- Powers of two are divided by taking their exponents apart.
  rw [Nat.pow_div fewer Nat.two_pos]
  simpa only [position, Nat.log2_two_pow] using encard_lowBits_eq narrow fewer inside

/-- Out of all digests of 32 bytes, equally many are turned into every element of a field that fits
them, fewer than half are refused, and equally many are turned into every position of a domain that fits
eight bytes. -/
theorem samples_unbiased :
    {digest : Bytes | digest.length = 32}.encard = (2 ^ 256 : Nat) ∧
      (∀ field : PrimeField, field.byteLength ≤ 32 →
        (∀ element : Element field,
          {digest : Bytes | digest.length = 32 ∧ candidate? field digest = some element}.encard
            = (2 ^ (256 - field.bits) : Nat)) ∧
          2 * {digest : Bytes | digest.length = 32 ∧ candidate? field digest = none}.encard
            < {digest : Bytes | digest.length = 32}.encard) ∧
      ∀ domainSize : Nat, domainSize.isPowerOfTwo → domainSize ≤ 2 ^ 64 → ∀ place < domainSize,
        {digest : Bytes | digest.length = 32 ∧ position domainSize digest = place}.encard
          = (2 ^ 256 / domainSize : Nat) := by
  refine ⟨encard_digests 32, fun field bytes => ?_, fun domainSize power covered place inside => ?_⟩
  · -- Elements are read from as many bytes as they have, which a digest of 32 covers.
    have fits : field.bits ≤ 8 * 32 :=
      field.bits_le_mul_byteLength.trans (Nat.mul_le_mul_left 8 bytes)
    rw [encard_digests]
    exact ⟨encard_candidate?_eq_some fits, two_mul_encard_candidate?_eq_none_lt field fits⟩
  · -- A domain that eight bytes cover is covered by 32.
    have fits : domainSize ≤ 2 ^ (8 * 32) :=
      covered.trans (Nat.pow_le_pow_right Nat.two_pos (by decide))
    exact encard_position_eq power covered fits inside

/-- The known field of order 2^255 - 19. -/
def wide : PrimeField :=
  PrimeField.catalogue[27]

/-- Just two digests are turned into each element of 255 binary digits, and 2^246 into each of 1024
positions. -/
theorem samples_unbiased_two_digests :
    wide.byteLength ≤ 32 ∧
      {digest : Bytes | digest.length = 32 ∧
        candidate? wide digest = some wide.primitiveElement}.encard = 2 ∧
      Nat.isPowerOfTwo 1024 ∧ 1024 ≤ 2 ^ 64 ∧ 7 < 1024 ∧
      {digest : Bytes | digest.length = 32 ∧ position 1024 digest = 7}.encard = (2 ^ 246 : Nat) := by
  have bytes : wide.byteLength ≤ 32 := by decide +kernel
  -- The order of this field is close below a power of two.
  have digits : wide.bits = 255 := by decide +kernel
  have power : Nat.isPowerOfTwo 1024 := ⟨10, rfl⟩
  obtain ⟨_, elements, positions⟩ := samples_unbiased
  -- Of 256 binary digits all but one are read for an element.
  have two := (elements wide bytes).1 wide.primitiveElement
  rw [digits] at two
  exact ⟨bytes, two, power, by decide, by decide, positions 1024 power (by decide) 7 (by decide)⟩

end Channel

end Proximity
