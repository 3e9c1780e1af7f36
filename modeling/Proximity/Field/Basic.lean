import Proximity.Fault

/-! Prime fields, and their elements as least residues. -/

namespace Proximity

/-- A prime field, named by its order and by an element whose powers are all nonzero elements. The order
can be written as a numeral, and with it every element. -/
structure PrimeField where
  order : Nat
  generator : Nat
  one_lt_order : 1 < order := by decide
  generator_lt : generator < order := by decide
  order_lt : order < Nat.pow 10 Text.digitLimit := by decide +kernel
deriving DecidableEq

/-- How many binary digits a number has. -/
def bitLength (value : Nat) : Nat :=
  if value = 0 then 0 else Nat.log2 value + 1

namespace PrimeField

variable (field : PrimeField)

/-- The name a field is reported under. -/
def name : String :=
  "GF(" ++ Text.writeInteger field.order ++ ")"

/-- How many binary digits the largest element has. -/
def bits : Nat :=
  bitLength (field.order - 1)

/-- How many bytes hold every element. -/
def byteLength : Nat :=
  (field.bits + 7) / 8

end PrimeField

/-- A field element, held as its least residue. -/
@[ext] structure Element (field : PrimeField) where
  value : Nat
  value_lt : value < field.order
deriving DecidableEq

namespace Element

variable {field : PrimeField}

/-- The element a number is congruent to. -/
def ofNat (value : Nat) : Element field :=
  ⟨value % field.order, Nat.mod_lt _ (Nat.lt_trans Nat.zero_lt_one field.one_lt_order)⟩

/-- The element whose least residue is an integer; no integer is reduced to reach one. -/
def ofInt? (value : Int) : Except Fault (Element field) :=
  match value with
  | .ofNat residue =>
    if inside : residue < field.order then .ok ⟨residue, inside⟩ else .error .outsideField
  | .negSucc _ => .error .outsideField

instance : Zero (Element field) := ⟨ofNat 0⟩

instance : One (Element field) := ⟨ofNat 1⟩

instance : Inhabited (Element field) := ⟨0⟩

instance : Add (Element field) := ⟨fun left right => ofNat (left.value + right.value)⟩

instance : Mul (Element field) := ⟨fun left right => ofNat (left.value * right.value)⟩

/-- Repeated squaring, one step for each binary digit allowed to the exponent. -/
def powWithin : (digits : Nat) → Element field → (exponent : Nat) → Element field
  | 0, _, _ => 1
  | digits + 1, base, exponent =>
    let rest := powWithin digits (base * base) (exponent / 2)
    if exponent % 2 = 0 then rest else rest * base

/-- A power with a natural exponent. -/
def pow (base : Element field) (exponent : Nat) : Element field :=
  powWithin (bitLength exponent) base exponent

instance : Pow (Element field) Nat := ⟨pow⟩

/-- The inverse, by the order of the multiplicative group; zero is kept. -/
def inverse (element : Element field) : Element field :=
  if element = 0 then 0 else element ^ (field.order - 2)

end Element

namespace PrimeField

variable (field : PrimeField)

/-- The element whose powers are all nonzero elements. -/
def primitiveElement : Element field :=
  ⟨field.generator, field.generator_lt⟩

end PrimeField

end Proximity
