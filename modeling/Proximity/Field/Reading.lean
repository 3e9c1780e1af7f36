import Proximity.Collect
import Proximity.Field.Storage
import Proximity.Table

/-! Field elements read from integers, one by one, in rows, or nested to any depth. -/

namespace Proximity

/-- Integers nested in lists to any depth. -/
inductive Nested where
  | integer (value : Int)
  | list (items : List Nested)

namespace Nested

mutual

/-- The integers in reading order. -/
def leaves : Nested → List Int
  | integer value => [value]
  | list items => leavesOf items

/-- The integers of several nested lists in reading order. -/
def leavesOf : List Nested → List Int
  | [] => []
  | item :: rest => item.leaves ++ leavesOf rest

end

mutual

/-- The lengths of the lists by depth, if all lists of one depth agree. -/
def shape? : Nested → Option (List Nat)
  | integer _ => some []
  | list [] => some [0]
  | list (first :: rest) =>
    match first.shape? with
    | some inner => if haveShape inner rest then some ((rest.length + 1) :: inner) else none
    | none => none

/-- Whether all items have the same shape. -/
def haveShape (inner : List Nat) : List Nested → Bool
  | [] => true
  | item :: rest => item.shape? == some inner && haveShape inner rest

end

/-- The number of places in a shape. -/
def volume : List Nat → Nat
  | [] => 1
  | length :: rest => length * volume rest

mutual

/-- A shape has one place for each integer. -/
theorem length_leaves : ∀ (nested : Nested) {shape : List Nat},
    nested.shape? = some shape → nested.leaves.length = volume shape
  | integer _, _, found => by
    simp only [shape?, Option.some.injEq] at found
    simp [leaves, ← found, volume]
  | list [], _, found => by
    simp only [shape?, Option.some.injEq] at found
    simp [leaves, leavesOf, ← found, volume]
  | list (first :: rest), _, found => by
    simp only [shape?] at found
    split at found
    · rename_i inner head
      split at found
      · rename_i tail
        simp only [Option.some.injEq] at found
        -- The first item and the others all have the inner shape.
        have one := length_leaves first head
        have others := length_leavesOf rest tail
        simp only [leaves, leavesOf, List.length_append, one, others, ← found, volume, Nat.succ_mul]
        omega
      · simp at found
    · simp at found

/-- Items of one shape have one place each for each of their integers. -/
theorem length_leavesOf : ∀ (items : List Nested) {inner : List Nat},
    haveShape inner items = true → (leavesOf items).length = items.length * volume inner
  | [], _, _ => by simp [leavesOf]
  | item :: rest, inner, even => by
    simp only [haveShape, Bool.and_eq_true, beq_iff_eq] at even
    have one := length_leaves item even.1
    have others := length_leavesOf rest even.2
    simp only [leavesOf, List.length_append, one, others, List.length_cons, Nat.succ_mul]
    omega

end

end Nested

/-- Elements of a field in a rectangular array with any number of dimensions. -/
structure Tensor (field : PrimeField) where
  shape : List Nat
  cells : Array (Element field)
  size_cells : cells.size = Nested.volume shape

/-- Whether integers can be held in words of the kind that the first of them needs. -/
def isUniform : List Int → Bool
  | [] => true
  | first :: rest => rest.all (Word.ofInteger first).holds

/-- Whether integers all need words of one kind, so that they are laid out together. -/
def shareWord : List Int → Bool
  | [] => true
  | first :: rest =>
    Word.ofInteger first ≠ .unbounded &&
      rest.all fun value => Word.ofInteger value = Word.ofInteger first

/-- The elements with the given least residues; words are laid out before any is compared with the order. -/
def readElements (field : PrimeField) (values : List Int) : Except Fault (List (Element field)) :=
  if field.isWordSized && !isUniform values then .error .wideInteger
  else collect Element.ofInt? values

/-- There is one element for each residue. -/
theorem length_readElements {field : PrimeField} {values : List Int}
    {elements : List (Element field)} (read : readElements field values = .ok elements) :
    elements.length = values.length := by
  simp only [readElements] at read
  split at read
  · simp at read
  · exact length_collect read

/-- The vector of the elements with the given least residues. -/
def readVector (field : PrimeField) (values : List Int) : Except Fault (Array (Element field)) := do
  let elements ← readElements field values
  return elements.toArray

/-- How many dimensions an array may have. -/
def dimensionLimit : Nat := 64

/-- How many dimensions an array may have whose integers are laid out one by one. -/
def mixedDimensionLimit : Nat := 32

/-- The array of elements that nested lists of least residues describe. -/
def readTensor (field : PrimeField) (nested : Nested) : Except Fault (Tensor field) :=
  match shaped : nested.shape? with
  | none => .error field.raggedFault
  | some shape =>
    if dimensionLimit < shape.length then .error field.raggedFault
    else if mixedDimensionLimit < shape.length && field.isWordSized && !shareWord nested.leaves then
      .error .deepMixture
    else match read : readElements field nested.leaves with
      | .error fault => .error fault
      | .ok elements => .ok ⟨shape, elements.toArray, by
          rw [List.size_toArray, length_readElements read, Nested.length_leaves nested shaped]⟩

/-- The table of some rows of least residues; without rows the width is given, and has to be one. -/
def readTable (field : PrimeField) (width : Int) (rows : List (List Int)) :
    Except Fault (Table (Element field)) :=
  match rows with
  | [] =>
    if width < 0 then .error .misshapen
    else if field.hasRoom width.toNat then .ok (Table.empty width.toNat)
    else .error .oversized
  | first :: rest =>
    if even : ∀ row ∈ first :: rest, row.length = first.length then
      match read : readElements field (first :: rest).flatten with
      | .error fault => .error fault
      | .ok elements => .ok ⟨(first :: rest).length, first.length, elements.toArray, by
          rw [List.size_toArray, length_readElements read, Table.length_flatten_of_even even]⟩
    else .error field.raggedFault

end Proximity
