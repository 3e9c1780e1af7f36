import Proximity.Fault
import Proximity.Hash.Blake2s
import Proximity.Hash.Sha3

/-! Hash functions with digests of one fixed size, looked up by name, and the merge of two digests. -/

namespace Proximity

/-- A hash function whose digests all have the same size. -/
structure Hasher where
  name : String
  digestSize : Nat
  digest : Bytes → Bytes
  length_digest : ∀ data, (digest data).length = digestSize

namespace Hasher

/-- SHA3-256, which is used when no hash function is named. -/
def sha3 : Hasher where
  name := "sha3_256"
  digestSize := 32
  digest data := (Sha3.digest data).toList
  length_digest _ := Vector.length_toList

/-- BLAKE2s with the longest of its digests. -/
def blake2s : Hasher where
  name := "blake2s"
  digestSize := 32
  digest data := (Blake2s.digest data).toList
  length_digest _ := Vector.length_toList

/-- SHA-256. -/
def sha256 : Hasher where
  name := "sha256"
  digestSize := 32
  digest data := (Sha256.digest data).toList
  length_digest _ := Vector.length_toList

/-- Every supported hash function. -/
def supported : List Hasher := [sha3, blake2s, sha256]

/-- The supported hash function of a name. -/
def named (name : String) : Except Fault Hasher :=
  match supported.find? (fun hasher => hasher.name == name) with
  | some hasher => .ok hasher
  | none => .error (.unknownHash name)

/-- How a hash function is shown. -/
def description (hasher : Hasher) : String :=
  "Hasher(" ++ Text.quoted hasher.name ++ ")"

/-- The parent of two neighbouring digests: the digest of both, one behind the other. -/
def merge (hasher : Hasher) (left right : Bytes) : Bytes :=
  hasher.digest (left ++ right)

end Hasher

end Proximity
