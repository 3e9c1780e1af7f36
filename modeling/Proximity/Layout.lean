import Proximity.Field.Storage
import Proximity.Table

/-! A vector laid out in rows, so that the values folded together stand in one row. -/

namespace Proximity

variable {α : Type} {field : PrimeField}

/-- Evaluations in rows of a width: row `i` holds the values at `i`, `i + rows`, `i + 2 rows` and so on. -/
def splitRows (values : Array α) (width : Nat) : Except Fault (Table α) :=
  if width = 0 then .error .divisionByZero
  else match Table.ofHeight? values width with
    -- Consecutive runs become the columns.
    | some runs => .ok runs.transpose
    | none => .error (.unevenRows values.size width)

/-- Evaluations in rows of a width that may be out of range. -/
def transposeEvaluations (values : Array (Element field)) (width : Int) :
    Except Fault (Table (Element field)) :=
  match width with
  | .ofNat width =>
    -- Only without values does a width divide their number and still exceed it.
    if values.size = 0 ∧ !field.hasRoom width then .error .oversized else splitRows values width
  | .negSucc below =>
    -- A width below zero may divide the number of values and still gives no shape.
    if values.size % (below + 1) = 0 then .error .misshapen
    else .error (.unevenRows values.size (.negSucc below))

/-- The natural order of evaluations that were laid out in rows of a width and written row by row. -/
def joinRows (values : Array α) (width : Nat) : Except Fault (Array α) :=
  if width = 0 then .error .divisionByZero
  else match Table.ofWidth? values width with
    | some table => .ok table.transpose.cells
    | none => .error .misshapen

/-- The natural order of evaluations in rows of a width that may be out of range. -/
def untransposeEvaluations (values : Array (Element field)) (width : Int) :
    Except Fault (Array (Element field)) :=
  match width with
  | .ofNat width =>
    if values.size = 0 ∧ !field.hasRoom width then .error .oversized else joinRows values width
  | .negSucc _ => .error .misshapen

end Proximity
