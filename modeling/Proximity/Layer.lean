import Proximity.Field.Reading
import Proximity.Hash.Encoding
import Proximity.Merkle.Batch

/-! Committed layers: a Merkle tree over rows of evaluations, opened at rows. -/

namespace Proximity

/-- The rows of a layer that were asked for, and one proof that all of them belong to the layer. -/
structure LayerOpening (field : PrimeField) where
  values : Table (Element field)
  proof : BatchProof

/-- The leaves of a layer: the digest of each of its rows. -/
def hashRows (hasher : Hasher) {field : PrimeField} (table : Table (Element field)) :
    Except Fault (List Bytes) :=
  collect hasher.hashRow table.rows

/-- The evaluations of one round, row by row, under a tree whose leaves are the rows' digests. -/
structure Layer (field : PrimeField) (hasher : Hasher) where
  tree : MerkleTree hasher
  evaluations : Array (Element field)

namespace Layer

variable {field : PrimeField} {hasher : Hasher}

/-- The evaluations in rows of a width, which has to divide their number. -/
def rows (layer : Layer field hasher) (width : Int) : Except Fault (Table (Element field)) :=
  match width with
  | .ofNat width =>
    match Table.ofWidth? layer.evaluations width with
    | some table => .ok table
    | none => .error .misshapen
  | .negSucc _ => .error .misshapen

/-- The rows at some positions, with their proof. -/
def query (layer : Layer field hasher) (positions : List Int) (width : Int) :
    Except Fault (LayerOpening field) := do
  -- The tree refuses a position before the rows are looked up.
  let proof ← layer.tree.proveBatch positions
  let table ← layer.rows width
  let values ← table.select (positions.map Int.toNat)
  return { values, proof }

end Layer

end Proximity
