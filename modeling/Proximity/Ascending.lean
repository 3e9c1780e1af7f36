/-! Finite sets of numbers as strictly ascending lists. -/

namespace Proximity

variable {α : Type} [LT α] [DecidableLT α] [DecidableEq α]

/-- A value put into its place, unless it is there already. -/
def insertAscending (value : α) : List α → List α
  | [] => [value]
  | first :: rest =>
    if value < first then value :: first :: rest
    else if value = first then first :: rest
    else first :: insertAscending value rest

/-- The distinct values of a list, the smallest first. -/
def ascending (values : List α) : List α :=
  values.foldr insertAscending []

end Proximity
