import Mathlib
import Proximity.Text.Numeral

/-! Integers that are written as numerals are read back, as long as a numeral may have their digits. -/

namespace Proximity.Text

/-- A digit is the character of a number below ten. -/
theorem exists_digitChar_of_isDigit {char : Char} (digit : char.isDigit = true) :
    ∃ value < 10, char = Nat.digitChar value := by
  -- The digits are the ten characters from the zero on.
  obtain ⟨above, below⟩ := Char.isDigit_iff_toNat.mp digit
  change 48 ≤ char.toNat at above
  change char.toNat ≤ 57 at below
  refine ⟨char.toNat - 48, by omega, Char.toNat_inj.mp ?_⟩
  rw [Nat.toNat_digitChar_of_lt_ten (by omega)]
  omega

/-- The first of all scripts has the digits that numbers are written in. -/
theorem digitValue?_digitChar : ∀ value < 10, digitValue? (Nat.digitChar value) = some value := by
  decide

/-- Neither a digit nor a sign is a blank. -/
theorem isBlank_digitChar : ∀ value < 10, isBlank (Nat.digitChar value) = false := by
  decide

/-- A digit is neither a sign nor an underscore. -/
theorem digitChar_ne_mark : ∀ value < 10,
    Nat.digitChar value ≠ '+' ∧ Nat.digitChar value ≠ '-' ∧ Nat.digitChar value ≠ '_' := by
  decide

/-- A text without blanks has none at its ends. -/
theorem trimBlanks_eq_self {text : List Char} (solid : ∀ char ∈ text, isBlank char = false) :
    trimBlanks text = text := by
  -- Nothing is dropped from the front, and nothing from the front of the reversed text.
  have kept : ∀ chars : List Char, (∀ char ∈ chars, isBlank char = false) →
      chars.dropWhile isBlank = chars := by
    intro chars solid
    refine List.dropWhile_eq_self_iff.mpr fun inside => ?_
    simp [solid _ (List.getElem_mem inside)]
  have reversed : ∀ char ∈ text.reverse, isBlank char = false := fun char member =>
    solid char (List.mem_reverse.mp member)
  rw [trimBlanks, kept text solid, kept text.reverse reversed, List.reverse_reverse]

/-- Digits are read one behind the other. -/
theorem readDigits?_of_isDigit {text : List Char} (digits : ∀ char ∈ text, char.isDigit = true)
    (value : Nat) : readDigits? value text = some (Nat.ofDigitChars 10 text value) := by
  -- What has been read so far grows with each digit, so it is quantified over.
  induction text generalizing value with
  | nil => rfl
  | cons char rest ih =>
    obtain ⟨digit, small, rfl⟩ := exists_digitChar_of_isDigit (digits char List.mem_cons_self)
    have tail := ih fun other member => digits other (List.mem_cons_of_mem _ member)
    have notMark := (digitChar_ne_mark digit small).2.2
    -- Since the first character is no underscore, it is read by itself.
    have read : readDigits? value (Nat.digitChar digit :: rest)
        = readDigits? (value * 10 + digit) rest := by
      simp [readDigits?, notMark, digitValue?_digitChar digit small]
    rw [read, tail, Nat.ofDigitChars_cons_digitChar_of_lt_ten small, Nat.mul_comm]

/-- A number below a power of ten has no more digits than the power has zeros. -/
theorem length_toDigits_le {value digits : Nat} (some : 0 < digits) (short : value < Nat.pow 10 digits) :
    (Nat.toDigits 10 value).length ≤ digits :=
  (Nat.length_toDigits_le_iff (by decide) some).mpr short

/-- The digits of a number that is not too long are read as the number. -/
theorem readNatural?_toDigits {value : Nat} (short : value < Nat.pow 10 digitLimit) :
    readNatural? (Nat.toDigits 10 value) = some value := by
  -- The digits are written one by one, none of them an underscore, and there are not too many.
  have digits : ∀ char ∈ Nat.toDigits 10 value, char.isDigit = true := fun char =>
    Nat.isDigit_of_mem_toDigits (by decide) (by decide)
  have few : (Nat.toDigits 10 value).length ≤ digitLimit := length_toDigits_le (by decide) short
  have spelled : Nat.ofDigitChars 10 (Nat.toDigits 10 value) 0 = value :=
    Nat.ofDigitChars_ten_toDigits
  -- The first digit is read apart from the others.
  cases written : Nat.toDigits 10 value with
  | nil => exact absurd written Nat.toDigits_ne_nil
  | cons char rest =>
    rw [written] at digits few spelled
    obtain ⟨digit, small, rfl⟩ := exists_digitChar_of_isDigit (digits char List.mem_cons_self)
    -- Underscores would be left out of the count, and so would only make it smaller.
    have counted : ¬digitLimit < (Nat.digitChar digit :: rest).countP (· ≠ '_') :=
      Nat.not_lt.mpr (List.countP_le_length.trans few)
    have tail := readDigits?_of_isDigit
      (fun other member => digits other (List.mem_cons_of_mem _ member)) digit
    rw [Nat.ofDigitChars_cons_digitChar_of_lt_ten small, Nat.mul_zero, Nat.zero_add] at spelled
    simp only [readNatural?, if_neg counted, digitValue?_digitChar digit small, Option.bind_eq_bind,
      Option.bind_some, tail, spelled]

/-- A natural number that is not too long is read back from its numeral. -/
theorem readInteger?_writeInteger {value : Nat} (short : value < Nat.pow 10 digitLimit) :
    readInteger? (writeInteger value) = some (value : Int) := by
  -- Every character of the numeral is a digit, and so no blank.
  have digits : ∀ char ∈ Nat.toDigits 10 value, ∃ digit < 10, char = Nat.digitChar digit :=
    fun char member =>
      exists_digitChar_of_isDigit (Nat.isDigit_of_mem_toDigits (by decide) (by decide) member)
  have solid : ∀ char ∈ Nat.toDigits 10 value, isBlank char = false := by
    intro char member
    obtain ⟨digit, small, rfl⟩ := digits char member
    exact isBlank_digitChar digit small
  have read := readNatural?_toDigits short
  have text : (writeInteger value).toList = Nat.toDigits 10 value := String.toList_ofList
  rw [readInteger?, text, trimBlanks_eq_self solid]
  -- A numeral has a first digit, which tells that no sign stands there.
  cases written : Nat.toDigits 10 value with
  | nil => exact absurd written Nat.toDigits_ne_nil
  | cons char rest =>
    rw [written] at digits read
    obtain ⟨digit, small, rfl⟩ := digits char List.mem_cons_self
    -- The numeral has no sign.
    obtain ⟨notPlus, notMinus, _⟩ := digitChar_ne_mark digit small
    simp [readSigned?, notPlus, notMinus, read]

end Proximity.Text
