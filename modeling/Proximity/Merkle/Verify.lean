import Proximity.Merkle.Batch

/-! The check of a batched proof: every level is completed with the supplied siblings and merged. -/

namespace Proximity

/-- Known nodes of one level, each with its index. -/
abbrev Known := List (Nat × Bytes)

/-- Both children of a node, and the siblings that are left after the absent one was taken, if any. -/
def Known.children? (known : Known) (parent : Nat) (supplied : List Bytes) :
    Option (Bytes × Bytes × List Bytes) :=
  match known.lookup (2 * parent), known.lookup (2 * parent + 1), supplied with
  | some left, some right, supplied => some (left, right, supplied)
  | some left, none, right :: supplied => some (left, right, supplied)
  | none, some right, left :: supplied => some (left, right, supplied)
  | _, _, _ => none

namespace Hasher

variable (hasher : Hasher)

/-- The parents' digests, and the supplied siblings that were not needed. -/
def mergeKnown (known : Known) : (parents : List Nat) → (supplied : List Bytes) →
    Option (Known × List Bytes)
  | [], supplied => some ([], supplied)
  | parent :: rest, supplied => do
    let (left, right, supplied) ← known.children? parent supplied
    let (above, unused) ← mergeKnown known rest supplied
    return ((parent, hasher.merge left right) :: above, unused)

/-- The nodes known after all levels, if every level supplies exactly the siblings it needs. -/
def mergeLevels : (known : Known) → (levels : List (List Bytes)) → Option Known
  | known, [] => some known
  | known, supplied :: levels =>
    match hasher.mergeKnown known (parentIndexes (known.map Prod.fst)) supplied with
    | some (above, []) => mergeLevels above levels
    | _ => none

/-- Whether a batched proof leads from all leaves at their indexes to a root. -/
def verifyBatch (root : Bytes) (indexes : List Int) (leaves : List Bytes) (proof : BatchProof) :
    Bool :=
  if indexes = [] ∨ indexes.length ≠ leaves.length then false
  else if (proof.nodes.length : Int) ≠ proof.depth then false
  else if (ascending indexes).length ≠ indexes.length then false
  else if indexes.any fun index => index < 0 || (Nat.pow 2 proof.nodes.length : Int) ≤ index then false
  else
    match hasher.mergeLevels ((indexes.map Int.toNat).zip leaves) proof.nodes with
    | some known => known.lookup 0 == some root
    | none => false

end Hasher

end Proximity
