import Proximity.Document.Basic
import Proximity.Proof

/-! Proofs as documents: elements as decimal numerals, digests as hexadecimal digits. -/

namespace Proximity

variable {field : PrimeField}

/-- The numeral of an element. -/
def Element.toDocument (element : Element field) : Document :=
  .text (Text.writeInteger element.value)

/-- The digits of a digest. -/
def digestDocument (digest : Bytes) : Document :=
  .text (Text.writeHex digest)

/-- An opening: its rows, the depth of its tree, and the siblings by level. -/
def LayerOpening.toDocument (opening : LayerOpening field) : Document :=
  .object [
    ("values", .list (opening.values.rows.map fun row => .list (row.map Element.toDocument))),
    ("depth", .integer opening.proof.depth),
    ("nodes", .list (opening.proof.nodes.map fun level => .list (level.map digestDocument)))]

/-- The document of a proof, which has to have a remainder. -/
def Proof.toDocument (proof : Proof field) : Except Fault Document :=
  match proof.remainder with
  | none => .error .noRemainder
  | some remainder =>
    .ok (.object [
      ("foldingFactor", .integer proof.foldingFactor),
      ("layers", .list (proof.layers.map LayerOpening.toDocument)),
      ("remainder", .list (remainder.toList.map Element.toDocument))])

end Proximity
