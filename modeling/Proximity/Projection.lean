import Proximity.Field.Inversion
import Proximity.Field.Reading
import Proximity.Interpolation

/-! Degree-respecting projection: every row of evaluations is folded into one value at a challenge. -/

namespace Proximity

variable {field : PrimeField}

/-- The first points of a coset: powers of a generator, shifted by an offset. -/
def cosetPoints (generator offset : Element field) (count : Nat) : List (Element field) :=
  (powers generator count).map (· * offset)

/-- The fold of all rows. Row `i` holds the values of a polynomial at `x w^j`, where `x` is the `i`th
point of the coset and `w` a root of unity of the row's width; its fold is the value at the challenge
of the polynomial through the points of that row. -/
def projectRows (table : Table (Element field)) (offset challenge : Int) :
    Except Fault (Array (Element field)) := do
  let coefficients ← interpolateRows table
  let generator ← rootOfUnity field (table.height * table.width : Nat)
  let offset ← Element.ofInt? offset
  -- A row's coefficients belong to the powers of the point divided by the row's own.
  let inverses ← batchInverse (cosetPoints generator offset table.height)
  let challenge ← Element.ofInt? challenge
  return (List.zipWith (fun row inverse => evaluate row (inverse * challenge))
    coefficients inverses).toArray

end Proximity
