import Mathlib
import Proximity.Layer
import Proximity.Proofs.Field.Arithmetic
import Proximity.Proofs.Table

/-! Every element fits the width of its field, so rows of elements are always hashed; words of one width
can be told apart again, so different rows, and different integers of any kind that fit the width, are
hashed as different strings. -/

namespace Proximity

variable {field : PrimeField}

/-- A field's elements fit into as many bytes as its elements are said to take. -/
theorem order_le_pow_byteLength (field : PrimeField) : field.order ≤ 256 ^ field.byteLength := by
  -- The bytes cover at least as many binary digits as elements have.
  calc field.order ≤ 2 ^ field.bits := field.order_le_two_pow_bits
    _ ≤ 2 ^ (8 * field.byteLength) := Nat.pow_le_pow_right Nat.two_pos field.bits_le_mul_byteLength
    _ = 256 ^ field.byteLength := pow_mul 2 8 _

/-- A field has at least two elements, which takes a byte. -/
theorem byteLength_pos (field : PrimeField) : 0 < field.byteLength := by
  have above := field.one_lt_order
  have enough := order_le_pow_byteLength field
  -- No bytes would hold zero alone.
  rcases Nat.eq_zero_or_pos field.byteLength with none | positive
  · rw [none, pow_zero] at enough
    omega
  · exact positive

/-- One byte less does not hold the largest element. -/
theorem pow_pred_byteLength_lt (field : PrimeField) :
    256 ^ (field.byteLength - 1) < field.order := by
  have above := field.one_lt_order
  have positive := byteLength_pos field
  -- The last byte is there for at least one more binary digit.
  have fewer : 8 * (field.byteLength - 1) < field.bits := by
    unfold PrimeField.byteLength at *
    omega
  calc 256 ^ (field.byteLength - 1) = 2 ^ (8 * (field.byteLength - 1)) := (pow_mul 2 8 _).symm
    _ ≤ field.order - 1 := two_pow_le_of_lt_bitLength fewer
    _ < field.order := by omega

/-- An integer is encoded exactly if it is not negative and fits the width. -/
theorem encodeInteger_eq (width : Nat) (value : Int) :
    encodeInteger width value
      = if 0 ≤ value ∧ value < 256 ^ width then .ok (Bytes.ofNat width value.toNat)
        else .error .wideInteger := by
  cases value with
  | ofNat magnitude =>
    -- From zero on only the width decides.
    have bound : (magnitude : Int) < 256 ^ width ↔ magnitude < 256 ^ width := by norm_cast
    simp only [encodeInteger, Int.ofNat_eq_natCast, Int.natCast_nonneg, true_and, bound,
      Int.toNat_natCast]
    rfl
  | negSucc below => simp [encodeInteger]

/-- Integers are encoded exactly if all of them fit the width, one word for each. -/
theorem encodeIntegers_eq (width : Nat) (values : List Int) :
    encodeIntegers width values
      = if ∀ value ∈ values, 0 ≤ value ∧ value < 256 ^ width then
          .ok (values.map fun value => Bytes.ofNat width value.toNat).flatten
        else .error .wideInteger := by
  rw [encodeIntegers, collect_eq_ite (encodeInteger_eq width)]
  -- The words are put together once there are all of them.
  split
  · rfl
  · rfl

/-- The bytes of a row: every element in its field's width, the lowest byte first. -/
def rowBytes (row : List (Element field)) : Bytes :=
  row.flatMap fun element => Bytes.ofNat field.byteLength element.value

/-- Elements are always encoded, one behind the other. -/
theorem encodeIntegers_elements (row : List (Element field)) :
    encodeIntegers field.byteLength (row.map fun element => Int.ofNat element.value)
      = .ok (rowBytes row) := by
  -- None of the elements is as large as the width allows.
  have fits : ∀ value ∈ row.map fun element => Int.ofNat element.value,
      0 ≤ value ∧ value < 256 ^ field.byteLength := by
    intro value member
    obtain ⟨element, _, rfl⟩ := List.mem_map.mp member
    have below : (element.value : Int) < 256 ^ field.byteLength := by
      exact_mod_cast Nat.lt_of_lt_of_le element.value_lt (order_le_pow_byteLength field)
    exact ⟨Int.natCast_nonneg _, below⟩
  -- With no element refused there is a word for each of them.
  rw [encodeIntegers_eq, if_pos fits, List.map_map, rowBytes, List.flatMap_def]
  rfl

/-- An integer that fits the width is spelled by its word. -/
theorem toNat_word {width : Nat} {value : Int} (natural : 0 ≤ value) (below : value < 256 ^ width) :
    (Bytes.toNat (Bytes.ofNat width value.toNat) : Int) = value := by
  -- A bound on the integer is one on the number.
  have room : value.toNat < 256 ^ width := by
    zify
    rwa [Int.toNat_of_nonneg natural]
  rw [Bytes.toNat_ofNat room, Int.toNat_of_nonneg natural]

/-- Integers are read back from the words they are encoded in, each of which is as wide as asked for. -/
theorem exists_words {width : Nat} {values : List Int} {data : Bytes}
    (encoded : encodeIntegers width values = .ok data) :
    ∃ words : List Bytes, data = words.flatten ∧ (∀ word ∈ words, word.length = width) ∧
      values = words.map fun word => (Bytes.toNat word : Int) := by
  -- There is a string only if every integer fits.
  rw [encodeIntegers_eq] at encoded
  split at encoded
  · rename_i fits
    refine ⟨_, (Except.ok.inj encoded).symm, fun word member => ?_, ?_⟩
    · -- Each word has the width it was asked for.
      obtain ⟨value, _, rfl⟩ := List.mem_map.mp member
      exact Bytes.length_ofNat width value.toNat
    · -- Every value fits its word, and so is what the word spells.
      have spelled : ∀ value ∈ values,
          (Bytes.toNat (Bytes.ofNat width value.toNat) : Int) = value := fun value member =>
        toNat_word (fits value member).1 (fits value member).2
      rw [List.map_map]
      exact ((List.map_congr_left spelled).trans (List.map_id' values)).symm
  · -- An integer that does not fit is no string.
    simp at encoded

/-- Integers that are encoded as the same string are the same integers. -/
theorem encodeIntegers_inj {width : Nat} (positive : 0 < width) {values others : List Int}
    {data : Bytes} (encoded : encodeIntegers width values = .ok data)
    (otherEncoded : encodeIntegers width others = .ok data) : values = others := by
  -- Both strings are taken apart into words.
  obtain ⟨words, rfl, widths, rfl⟩ := exists_words encoded
  obtain ⟨otherWords, same, otherWidths, rfl⟩ := exists_words otherEncoded
  -- The length of the string counts the words.
  have count : words.length = otherWords.length := by
    have lengths := congrArg List.length same
    rw [Table.length_flatten_of_even widths, Table.length_flatten_of_even otherWidths] at lengths
    exact Nat.eq_of_mul_eq_mul_right positive lengths
  rw [Table.eq_of_flatten_eq widths otherWidths count same]

/-- Different rows are different strings. -/
theorem rowBytes_injective : Function.Injective (rowBytes : List (Element field) → Bytes) := by
  intro row other same
  -- The bytes are the encoding of the residues.
  have values := encodeIntegers_inj (byteLength_pos field) (encodeIntegers_elements row)
    (same ▸ encodeIntegers_elements other)
  -- An element is decided by its least residue.
  refine (List.map_injective_iff.mpr fun left right residues => ?_) values
  exact Element.ext (Int.ofNat.inj residues)

/-- A row of elements is hashed as its bytes, and never refused. -/
theorem hashRow_eq_ok (hasher : Hasher) (row : List (Element field)) :
    hasher.hashRow row = .ok (hasher.digest (rowBytes row)) := by
  -- A row is hashed as the integers of its residues.
  rw [Hasher.hashRow, Hasher.hashIntegers, encodeIntegers_elements, ok_bind, pure_eq_ok]

/-- Integers are refused exactly if one of them is negative or too large for the field's width. -/
theorem hashIntegers_eq_error_iff {hasher : Hasher} {values : List Int} :
    hasher.hashIntegers field values = .error .wideInteger ↔
      ∃ value ∈ values, ¬(0 ≤ value ∧ value < 256 ^ field.byteLength) := by
  rw [Hasher.hashIntegers, encodeIntegers_eq]
  -- The refusal is that of the encoding.
  split
  · rename_i fits
    refine iff_of_false (by simp) fun unfit => ?_
    obtain ⟨value, member, outside⟩ := unfit
    exact outside (fits value member)
  · -- A refusal means that one of the integers does not fit.
    rename_i unfit
    refine iff_of_true rfl ?_
    simpa only [not_forall, exists_prop] using unfit

/-- The leaves of a table are the digests of its rows, of which none is refused. -/
theorem hashRows_eq_ok (hasher : Hasher) (table : Table (Element field)) :
    hashRows hasher table = .ok (table.rows.map fun row => hasher.digest (rowBytes row)) := by
  -- Leaf by leaf, the rows are hashed in order.
  rw [hashRows, collect_eq_ok_iff, List.forall₂_map_right_iff, List.forall₂_same]
  exact fun row _ => hashRow_eq_ok hasher row

/-- A field's width is the least that holds all of its elements. Integers are refused exactly if one of
them does not fit it, which no element does; all others are hashed as one word of that width for each, and
different integers as different strings. -/
theorem integers_hashed_in_fixed_width (hasher : Hasher) (field : PrimeField) :
    (256 ^ (field.byteLength - 1) < field.order ∧ field.order ≤ 256 ^ field.byteLength) ∧
      (∀ values : List Int, hasher.hashIntegers field values = .error .wideInteger ↔
        ∃ value ∈ values, ¬(0 ≤ value ∧ value < 256 ^ field.byteLength)) ∧
      (∀ row : List (Element field), hasher.hashRow row = .ok (hasher.digest (rowBytes row))) ∧
      (∀ values : List Int, (∀ value ∈ values, 0 ≤ value ∧ value < 256 ^ field.byteLength) →
        ∃ words : List Bytes, encodeIntegers field.byteLength values = .ok words.flatten ∧
          hasher.hashIntegers field values = .ok (hasher.digest words.flatten) ∧
          (∀ word ∈ words, word.length = field.byteLength) ∧
          values = words.map fun word => (Bytes.toNat word : Int)) ∧
      ∀ (values others : List Int) (data : Bytes),
        encodeIntegers field.byteLength values = .ok data →
        encodeIntegers field.byteLength others = .ok data → values = others := by
  refine ⟨⟨pow_pred_byteLength_lt field, order_le_pow_byteLength field⟩,
    fun values => hashIntegers_eq_error_iff, hashRow_eq_ok hasher, ?_,
    fun _ _ _ => encodeIntegers_inj (byteLength_pos field)⟩
  intro values fits
  -- The string that is hashed is the one that the words are read back from.
  have encoded := encodeIntegers_eq field.byteLength values
  rw [if_pos fits] at encoded
  obtain ⟨words, string, widths, read⟩ := exists_words encoded
  rw [string] at encoded
  refine ⟨words, encoded, ?_, widths, read⟩
  rw [Hasher.hashIntegers, encoded, ok_bind, pure_eq_ok]

/-- The known field of order 257, the first whose elements take two bytes. -/
def twoBytesWide : PrimeField :=
  PrimeField.catalogue[10]

/-- In two bytes each, the values up to 256 are encoded with the high byte behind the low one, and no value
from 65536 on is. -/
theorem integers_hashed_in_fixed_width_two_bytes :
    (∀ value ∈ ([1, 256, 0, 7] : List Int), 0 ≤ value ∧ value < 256 ^ twoBytesWide.byteLength) ∧
      256 ^ 1 < twoBytesWide.order ∧ twoBytesWide.order ≤ 256 ^ 2 ∧
      encodeIntegers twoBytesWide.byteLength [1, 256, 0, 7] = .ok [1, 0, 0, 1, 0, 0, 7, 0] ∧
      Hasher.sha3.hashIntegers twoBytesWide [1, 256, 0, 7]
        = .ok (Hasher.sha3.digest [1, 0, 0, 1, 0, 0, 7, 0]) ∧
      Hasher.sha3.hashIntegers twoBytesWide [1, 65536] = .error .wideInteger ∧
      ∀ others, encodeIntegers twoBytesWide.byteLength others = .ok [1, 0, 0, 1, 0, 0, 7, 0] →
        others = [1, 256, 0, 7] := by
  obtain ⟨⟨lower, upper⟩, refused, _, accepted, apart⟩ :=
    integers_hashed_in_fixed_width Hasher.sha3 twoBytesWide
  -- The four values are below 65536, the first number that takes more than two bytes.
  have fits : ∀ value ∈ ([1, 256, 0, 7] : List Int),
      0 ≤ value ∧ value < 256 ^ twoBytesWide.byteLength := by decide
  have computed : encodeIntegers twoBytesWide.byteLength [1, 256, 0, 7]
      = .ok [1, 0, 0, 1, 0, 0, 7, 0] := by decide
  -- The words that were found are those of the string.
  obtain ⟨words, encoded, hashed, _, _⟩ := accepted _ fits
  have same := Except.ok.inj (encoded.symm.trans computed)
  rw [same] at hashed
  -- The number refused is the first one too large.
  exact ⟨fits, lower, upper, computed, hashed, (refused _).mpr ⟨65536, by decide⟩,
    fun others given => apart _ _ _ given computed⟩

end Proximity
