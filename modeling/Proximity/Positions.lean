import Proximity.Ascending
import Proximity.Fault

/-! Positions in a domain, mapped to the rows they stand in after folding. -/

namespace Proximity

/-- The rows that hold some positions, ascending and without repetition; division rounds down, and a
remainder has the sign of its divisor. -/
def foldPositions (positions : List Int) (domainSize factor : Int) : Except Fault (List Int) :=
  if factor = 0 then .error .divisionByZero
  else
    let rows := domainSize.fdiv factor
    -- Without positions nothing is divided by an empty row space.
    if rows = 0 ∧ positions ≠ [] then .error .divisionByZero
    else .ok (ascending (positions.map fun position => position.fmod rows))

end Proximity
