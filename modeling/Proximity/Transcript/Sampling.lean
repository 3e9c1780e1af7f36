import Proximity.Bytes

/-! Sampling from a source of digests numbered by a counter of eight bytes, each number used once. -/

namespace Proximity

/-- The numbers that a counter of eight bytes can hold. -/
def counterLimit : Nat := 1 <<< 64

/-- The value of the first number after a counter that is accepted, and that number; without a value
once the numbers have run out. -/
def firstAccepted {α : Type} (accept : Nat → Option α) :
    (remaining counter : Nat) → Option α × Nat
  | 0, counter => (none, counter + 1)
  | remaining + 1, counter =>
    match accept (counter + 1) with
    | some value => (some value, counter + 1)
    | none => firstAccepted accept remaining (counter + 1)

/-- As many further values as wanted, none of them seen before, and the last number used; without
values once the numbers have run out. -/
def firstDistinct (sample : Nat → Nat) :
    (remaining counter wanted : Nat) → (seen : List Nat) → Option (List Nat) × Nat
  | _, counter, 0, _ => (some [], counter)
  | 0, counter, _ + 1, _ => (none, counter + 1)
  | remaining + 1, counter, wanted + 1, seen =>
    let value := sample (counter + 1)
    if value ∈ seen then firstDistinct sample remaining (counter + 1) (wanted + 1) seen
    else
      let (others, last) := firstDistinct sample remaining (counter + 1) wanted (value :: seen)
      (others.map (value :: ·), last)

/-- How many numbers a counter has not reached yet. -/
def remainingNumbers (counter : Nat) : Nat :=
  counterLimit - 1 - counter

/-- A digest's first bytes as a number of so many binary digits. -/
def lowBits (width bits : Nat) (digest : Bytes) : Nat :=
  Bytes.toNat (digest.take width) % Nat.pow 2 bits

end Proximity
