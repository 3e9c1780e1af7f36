import Mathlib
import Proximity.Proofs.Merkle.Completion

/-! The strings that are hashed while a tree is built and while a batched proof is checked. -/

namespace Proximity

/-- Two different strings with the same digest, one out of each of two computations. -/
def Hasher.Collide (hasher : Hasher) (first second : List Bytes) : Prop :=
  ∃ left ∈ first, ∃ right ∈ second, left ≠ right ∧ hasher.digest left = hasher.digest right

/-- A collision stays one when both computations hash more. -/
theorem Hasher.Collide.mono {hasher : Hasher} {first second third fourth : List Bytes}
    (collide : hasher.Collide first second) (left : first ⊆ third) (right : second ⊆ fourth) :
    hasher.Collide third fourth := by
  -- The two strings stay the same.
  obtain ⟨one, oneListed, other, otherListed, different, same⟩ := collide
  exact ⟨one, left oneListed, other, right otherListed, different, same⟩

/-- Digests of strings are as long as the hasher's digests are. -/
theorem Hasher.length_of_mem_map_digest {hasher : Hasher} {messages : List Bytes} {digest : Bytes}
    (member : digest ∈ messages.map hasher.digest) : digest.length = hasher.digestSize := by
  obtain ⟨message, _, rfl⟩ := List.mem_map.mp member
  exact hasher.length_digest message

/-- Strings whose digests are the same one by one are the same strings, or two of them collide. -/
theorem Hasher.eq_or_collide_of_map_digest {hasher : Hasher} {messages others : List Bytes}
    (same : messages.map hasher.digest = others.map hasher.digest) :
    messages = others ∨ hasher.Collide messages others := by
  -- The first place where the strings differ is the collision.
  induction messages generalizing others with
  | nil => exact .inl (List.map_eq_nil_iff.mp same.symm).symm
  | cons message rest ih =>
    obtain ⟨other, otherRest, rfl, digest, tail⟩ := List.map_eq_cons_iff.mp same.symm
    by_cases equal : message = other
    · rcases ih tail.symm with rests | collide
      · exact .inl (congrArg₂ List.cons equal rests)
      · exact .inr (collide.mono (List.subset_cons_self ..) (List.subset_cons_self ..))
    · -- The first two differ, and have one digest.
      exact .inr ⟨message, List.mem_cons_self, other, List.mem_cons_self, equal, digest.symm⟩

/-- The strings hashed to get from a level to the one above: neighbours, one behind the other. -/
def pairMessages : List Bytes → List Bytes
  | left :: right :: rest => (left ++ right) :: pairMessages rest
  | _ => []

/-- The pairs of a level without a node that stands alone are all of its nodes. -/
theorem flatten_pairMessages : ∀ {level : List Bytes}, level.length % 2 = 0 →
    (pairMessages level).flatten = level.flatten
  | [], _ => rfl
  | [_], even => by simp at even
  | left :: right :: rest, even => by
    -- The nodes behind the first two are of an even number as well.
    have evenRest : rest.length % 2 = 0 := by
      simp only [List.length_cons] at even
      omega
    simp only [pairMessages, List.flatten_cons, flatten_pairMessages evenRest, List.append_assoc]

/-- Any two neighbours are hashed together. -/
theorem mem_pairMessages : ∀ (level : List Bytes) {index : Nat}, index < level.length / 2 →
    level.getD (2 * index) [] ++ level.getD (2 * index + 1) [] ∈ pairMessages level
  | [], _, inside => by simp at inside
  | [_], _, inside => by simp at inside
  | _ :: _ :: _, 0, _ => List.mem_cons_self
  | _ :: _ :: rest, index + 1, inside => by
    -- The pair is one of those behind the first two nodes.
    have shrunk : index < rest.length / 2 := by
      simp only [List.length_cons] at inside
      omega
    exact List.mem_cons_of_mem _ (mem_pairMessages rest shrunk)

namespace Hasher

variable (hasher : Hasher)

/-- A level consists of the digests of what is hashed for it. -/
theorem parents_eq_map : ∀ level : List Bytes,
    hasher.parents level = (pairMessages level).map hasher.digest
  | [] => by simp [parents, pairMessages]
  | [_] => by simp [parents, pairMessages]
  | left :: right :: rest => by
    -- Merging two nodes is hashing one behind the other.
    simp only [parents, pairMessages, List.map_cons, parents_eq_map rest]
    rfl

/-- The strings hashed to build the levels above one, as many as the depth says. -/
def levelMessages : (depth : Nat) → List Bytes → List Bytes
  | 0, _ => []
  | depth + 1, level => pairMessages level ++ levelMessages depth (hasher.parents level)

/-- Neighbours on every level but the highest are hashed together. -/
theorem mem_levelMessages {depth above index : Nat} (inside : above < depth) (level : List Bytes)
    (below : index < ((hasher.levels depth level).getD above []).length / 2) :
    ((hasher.levels depth level).getD above []).getD (2 * index) []
        ++ ((hasher.levels depth level).getD above []).getD (2 * index + 1) []
      ∈ hasher.levelMessages depth level := by
  -- The level grows shorter with every step up, so it is left open.
  induction depth generalizing above level with
  | zero =>
    -- A single level is hashed into none.
    omega
  | succ depth ih =>
    cases above with
    | zero =>
      -- The lowest level is hashed first.
      exact List.mem_append_left _ (mem_pairMessages level below)
    | succ above =>
      -- The others are those of the tree on the parents.
      exact List.mem_append_right _ (ih (Nat.lt_of_succ_lt_succ inside) (hasher.parents level) below)

end Hasher

namespace MerkleTree

variable {hasher : Hasher} (tree : MerkleTree hasher)

/-- The strings hashed while a tree is built. -/
def messages : List Bytes :=
  hasher.levelMessages tree.depth tree.leaves

/-- The two children of every node have been hashed together. -/
theorem mem_messages {level index : Nat} (inside : level < tree.depth)
    (below : index < 2 ^ (tree.depth - (level + 1))) :
    tree.node level (2 * index) ++ tree.node level (2 * index + 1) ∈ tree.messages := by
  -- Both children stand inside their level, which is twice as long as the one above.
  have half : index < (tree.levels.getD level []).length / 2 := by
    rw [tree.length_level inside.le, show tree.depth - level = tree.depth - (level + 1) + 1 by omega,
      pow_succ]
    omega
  simp only [node]
  rw [tree.levels_eq] at half ⊢
  exact hasher.mem_levelMessages inside tree.leaves half

end MerkleTree

namespace Hasher

variable (hasher : Hasher)

/-- The strings hashed to get the digests of some parents, up to the first that lacks a child. -/
def mergeMessages (known : Known) : (parents : List Nat) → (supplied : List Bytes) → List Bytes
  | [], _ => []
  | parent :: rest, supplied =>
    match known.children? parent supplied with
    | some (left, right, supplied) => (left ++ right) :: mergeMessages known rest supplied
    | none => []

/-- What is hashed for the parents of labelled nodes is the labels of their children. -/
theorem mergeMessages_of_agrees {known : Known} {label : Nat → Bytes} (agrees : known.Agrees label)
    {parents : List Nat}
    (someKnown : ∀ parent ∈ parents, ∃ index ∈ known.map Prod.fst, index / 2 = parent)
    (unused : List Bytes) :
    mergeMessages known parents
        ((parents.flatMap (absentChildren (known.map Prod.fst))).map label ++ unused)
      = parents.map fun parent => label (2 * parent) ++ label (2 * parent + 1) := by
  -- Every parent takes what it lacks from the front, as when the digests are made.
  induction parents with
  | nil => rfl
  | cons parent rest ih =>
    have tail := ih fun other member => someKnown other (List.mem_cons_of_mem parent member)
    have taken := Known.children?_of_agrees agrees (someKnown parent List.mem_cons_self)
      ((rest.flatMap (absentChildren (known.map Prod.fst))).map label ++ unused)
    rw [List.flatMap_cons, List.map_append, List.append_assoc]
    simp only [mergeMessages, taken, tail, List.map_cons]

/-- The strings hashed while the levels of a batched proof are completed, up to the first that is
not supplied with exactly the siblings it lacks. -/
def completionMessages : (known : Known) → (levels : List (List Bytes)) → List Bytes
  | _, [] => []
  | known, supplied :: levels =>
    let parents := parentIndexes (known.map Prod.fst)
    mergeMessages known parents supplied ++
      match hasher.mergeKnown known parents supplied with
      | some (above, []) => completionMessages above levels
      | _ => []

/-- The strings hashed while a batched proof is checked, once its indexes have been found in order. -/
def verifyMessages (indexes : List Int) (leaves : List Bytes) (proof : BatchProof) : List Bytes :=
  hasher.completionMessages ((indexes.map Int.toNat).zip leaves) proof.nodes

end Hasher

end Proximity
