import Mathlib
import Proximity.Proofs.Hash.Encoding
import Proximity.Proofs.Merkle.Messages

/-! Trees of one depth with the same root are over the same leaves, or their constructions collide. -/

namespace Proximity

namespace Hasher

variable {hasher : Hasher}

/-- Levels of one size with the same parents are the same levels, or two of their pairs collide. -/
theorem parents_binding {width half : Nat} {level other : List Bytes}
    (widths : ∀ node ∈ level, node.length = width) (otherWidths : ∀ node ∈ other, node.length = width)
    (size : level.length = 2 * half) (otherSize : other.length = 2 * half)
    (same : hasher.parents level = hasher.parents other) :
    level = other ∨ hasher.Collide (pairMessages level) (pairMessages other) := by
  -- Parents are the digests of the pairs, in order.
  rw [parents_eq_map, parents_eq_map] at same
  rcases eq_or_collide_of_map_digest same with pairs | collide
  · -- Nodes of one width can be told apart in the string of all pairs.
    have strings : level.flatten = other.flatten := by
      have whole : (pairMessages level).flatten = level.flatten := flatten_pairMessages (by omega)
      have otherWhole : (pairMessages other).flatten = other.flatten := flatten_pairMessages (by omega)
      rw [← whole, pairs, otherWhole]
    exact .inl (Table.eq_of_flatten_eq widths otherWidths (size.trans otherSize.symm) strings)
  · -- Different pairs with the same digests collide.
    exact .inr collide

/-- Lowest levels under the same highest node are the same levels, or what is hashed above them
collides. -/
theorem levels_binding {depth : Nat} {level other : List Bytes}
    (widths : ∀ node ∈ level, node.length = hasher.digestSize)
    (otherWidths : ∀ node ∈ other, node.length = hasher.digestSize)
    (size : level.length = 2 ^ depth) (otherSize : other.length = 2 ^ depth)
    (same : ((hasher.levels depth level).getD depth []).getD 0 []
      = ((hasher.levels depth other).getD depth []).getD 0 []) :
    level = other ∨ hasher.Collide (hasher.levelMessages depth level)
      (hasher.levelMessages depth other) := by
  -- The highest node fixes the levels from the top down.
  induction depth generalizing level other with
  | zero =>
    -- A level of one node is its own highest node.
    obtain ⟨node, rfl⟩ := List.length_eq_one_iff.mp size
    obtain ⟨otherNode, rfl⟩ := List.length_eq_one_iff.mp otherSize
    exact .inl (congrArg (fun top => [top]) same)
  | succ depth ih =>
    -- The parents are half as many, and all of the digest's size.
    rw [pow_succ, mul_comm] at size otherSize
    have digests : ∀ below : List Bytes, ∀ node ∈ hasher.parents below,
        node.length = hasher.digestSize := fun below node member =>
      length_of_mem_map_digest (hasher.parents_eq_map below ▸ member)
    have halved : ∀ below : List Bytes, below.length = 2 * 2 ^ depth →
        (hasher.parents below).length = 2 ^ depth := by
      intro below size
      rw [length_parents, size, Nat.mul_div_cancel_left _ Nat.two_pos]
    rcases ih (digests level) (digests other) (halved level size) (halved other otherSize) same with
      parents | collide
    · -- Under the same parents, only this level's own pairs can collide.
      exact (parents_binding widths otherWidths size otherSize parents).imp_right fun collide =>
        collide.mono (List.subset_append_left ..) (List.subset_append_left ..)
    · -- A collision above is one of all that is hashed.
      exact .inr (collide.mono (List.subset_append_right ..) (List.subset_append_right ..))

end Hasher

namespace MerkleTree

variable {hasher : Hasher}

/-- A root binds the leaves, as long as these have the digest's size. -/
theorem leaves_eq_or_collide {tree other : MerkleTree hasher}
    (widths : ∀ leaf ∈ tree.leaves, leaf.length = hasher.digestSize)
    (otherWidths : ∀ leaf ∈ other.leaves, leaf.length = hasher.digestSize)
    (tall : tree.depth = other.depth) (same : tree.root = other.root) :
    tree.leaves = other.leaves ∨ hasher.Collide tree.messages other.messages := by
  -- Equal depths leave the roots at the same place of both lists of levels.
  simp only [root, node, tree.levels_eq, other.levels_eq, ← tall] at same
  rw [messages, messages, ← tall]
  exact Hasher.levels_binding widths otherWidths tree.length_leaves (tall ▸ other.length_leaves) same

end MerkleTree

end Proximity
