import Proximity.Document.Basic
import Proximity.Proof

/-! Proofs read from documents, the first part that cannot be read deciding the refusal. -/

namespace Proximity

namespace Document

/-- The integers a document goes through. -/
def integers (document : Document) : Except Fault (List Int) := do
  let items ← document.items
  collect toInteger items

/-- The rows of integers a document goes through. -/
def integerRows (document : Document) : Except Fault (List (List Int)) := do
  let rows ← document.items
  collect integers rows

/-- The byte strings a document goes through. -/
def byteStrings (document : Document) : Except Fault (List Bytes) := do
  let items ← document.items
  collect toBytes items

/-- The lists of byte strings a document goes through. -/
def byteLevels (document : Document) : Except Fault (List (List Bytes)) := do
  let levels ← document.items
  collect byteStrings levels

end Document

/-- An opening read from its document. -/
def LayerOpening.ofDocument (field : PrimeField) (foldingFactor : Int) (document : Document) :
    Except Fault (LayerOpening field) := do
  let rows ← (← document.member "values").integerRows
  -- Without rows the table is as wide as the folding factor.
  let values ← readTable field foldingFactor rows
  let depth ← (← document.member "depth").toInteger
  let nodes ← (← document.member "nodes").byteLevels
  return { values, proof := { depth, nodes } }

/-- A proof read from its document. -/
def Proof.ofDocument (field : PrimeField) (document : Document) : Except Fault (Proof field) := do
  let foldingFactor ← (← document.member "foldingFactor").toInteger
  let openings ← (← document.member "layers").items
  let layers ← collect (LayerOpening.ofDocument field foldingFactor) openings
  let values ← (← document.member "remainder").integers
  let remainder ← readVector field values
  return { layers, remainder := some remainder, foldingFactor }

end Proximity
