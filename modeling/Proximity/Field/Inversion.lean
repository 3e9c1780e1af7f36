import Proximity.Field.Basic

/-! Many inverses at the price of one: products forward, then one factor peeled off at each step back. -/

namespace Proximity

variable {field : PrimeField}

/-- The product of a list of elements. -/
def product (values : List (Element field)) : Element field :=
  values.foldl (· * ·) 1

/-- Inverts a start times all values once, and returns the inverse of the start with those of the values. -/
def peel (start : Element field) : List (Element field) → Element field × List (Element field)
  | [] => (start.inverse, [])
  | value :: rest =>
    -- What comes back first is the inverse of everything up to and including this value.
    let (whole, inverses) := peel (start * value) rest
    (whole * value, whole * start :: inverses)

/-- The inverses of all values, refused if any of them is zero. -/
def batchInverse (values : List (Element field)) : Except Fault (List (Element field)) :=
  -- A field has no zero divisors, so the product shows whether a factor is zero.
  if product values = 0 then .error .zeroInverse else .ok (peel 1 values).2

end Proximity
