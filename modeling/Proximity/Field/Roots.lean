import Proximity.Field.Storage

/-! Roots of unity and the powers that list a subgroup. -/

namespace Proximity

/-- A root of unity of exact degree, taken as a power of the primitive element so that roots of
nested degrees are powers of each other. -/
def rootOfUnity (field : PrimeField) (degree : Int) : Except Fault (Element field) :=
  -- The degree divides the order of the multiplicative group, or there is no such root.
  if 0 < degree ∧ (field.order - 1) % degree.toNat = 0 then
    .ok (field.primitiveElement ^ ((field.order - 1) / degree.toNat))
  else .error (.noRootOfUnity field.order degree)

variable {field : PrimeField}

/-- The products of a start with the powers of a base, from the zeroth on. -/
def powersFrom (base : Element field) : (count : Nat) → (start : Element field) → List (Element field)
  | 0, _ => []
  | count + 1, start => start :: powersFrom base count (start * base)

/-- The first powers of a base, from the zeroth on. -/
def powers (base : Element field) (count : Nat) : List (Element field) :=
  powersFrom base count 1

/-- The first powers of an integer's element, for a count that may be out of range. -/
def powersOf (field : PrimeField) (base count : Int) : Except Fault (List (Element field)) := do
  let base ← Element.ofInt? base
  if count < 0 then throw .negativeLength
  if !field.hasRoom count.toNat then throw .oversized
  return powers base count.toNat

end Proximity
