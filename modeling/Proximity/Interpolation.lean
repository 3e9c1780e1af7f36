import Proximity.Field.Roots
import Proximity.Table

/-! Rows of values at the powers of a root of unity, turned into polynomial coefficients. -/

namespace Proximity

variable {field : PrimeField}

/-- The sum of the products of matching elements. -/
def dot (left right : List (Element field)) : Element field :=
  (List.zipWith (· * ·) left right).foldl (· + ·) 0

/-- The matrix that turns values at the powers of a root into coefficients, one row for each of them:
the powers of the root's inverse, divided by the degree. -/
def inverseTransform (root : Element field) (degree : Nat) : List (List (Element field)) :=
  let scale := (Element.ofNat degree : Element field).inverse
  (powers root.inverse degree).map fun step => (powers step degree).map (· * scale)

/-- The coefficients of every row, the constant one first. The transform is laid out before any row is
looked at, and refused if it has more bytes than there are addresses. -/
def interpolateRows (table : Table (Element field)) : Except Fault (List (List (Element field))) := do
  let root ← rootOfUnity field table.width
  if !field.hasRoom (table.width * table.width) then throw .oversized
  let transform := inverseTransform root table.width
  return table.rows.map fun row => transform.map (dot row)

/-- The value of a polynomial at a point, from its highest coefficient down. -/
def evaluate (coefficients : List (Element field)) (point : Element field) : Element field :=
  coefficients.foldr (fun coefficient higher => higher * point + coefficient) 0

end Proximity
