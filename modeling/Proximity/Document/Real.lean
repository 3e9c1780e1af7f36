import Proximity.Fault

/-! Binary floating-point numbers cut to integers. -/

namespace Proximity

/-- Where the implied leading one of a number stands in its fraction. -/
def leadingOne : Nat := 1 <<< 52

/-- The integer reached from a number by dropping its fraction. -/
def truncateReal (value : Float) : Except Fault Int :=
  let bits := value.toBits.toNat
  let fraction := bits % leadingOne
  let exponent := bits / leadingOne % 2048
  if exponent = 2047 then
    -- The largest exponent is kept for what is no number.
    if fraction = 0 then .error .infiniteNumber else .error .undefinedNumber
  else
    -- Below exponent 1023 the number is smaller than one, whatever its fraction.
    let magnitude : Nat :=
      if exponent < 1023 then 0
      else ((leadingOne + fraction) <<< (exponent - 1023)) / leadingOne
    -- The highest bit is the sign.
    .ok (if bits / leadingOne < 2048 then (magnitude : Int) else -(magnitude : Int))

end Proximity
