import Mathlib
import Proximity.Field.Catalogue
import Proximity.Proofs.Merkle.Messages
import Proximity.Proofs.Transcript.Runs

/-! A state binds the seed and all absorbed roots in order, or two different strings have been hashed to
one digest on the way. -/

namespace Proximity

namespace Hasher

variable (hasher : Hasher)

/-- The strings hashed to absorb some roots: each root behind the state it is absorbed into. -/
def chainMessages : (state : Bytes) → (roots : List Bytes) → List Bytes
  | _, [] => []
  | state, root :: rest => (state ++ root) :: chainMessages (hasher.digest (state ++ root)) rest

/-- Equally many roots that lead to one state are the same roots absorbed into the same state, or a
collision has happened on the way. -/
theorem chain_binding {roots otherRoots : List Bytes} {state otherState : Bytes}
    (length : roots.length = otherRoots.length) (size : state.length = otherState.length)
    (same : hasher.chain state roots = hasher.chain otherState otherRoots) :
    (state = otherState ∧ roots = otherRoots) ∨
      hasher.Collide (hasher.chainMessages state roots) (hasher.chainMessages otherState otherRoots) := by
  induction roots generalizing otherRoots state otherState with
  | nil =>
    -- Without a root on either side the states are the ends of the chains.
    obtain rfl := List.length_eq_zero_iff.mp length.symm
    exact .inl ⟨same, rfl⟩
  | cons root rest ih =>
    cases otherRoots with
    | nil => simp at length
    | cons otherRoot otherRest =>
      have digests : (hasher.digest (state ++ root)).length
          = (hasher.digest (otherState ++ otherRoot)).length := by
        rw [hasher.length_digest, hasher.length_digest]
      rcases ih (Nat.succ.inj length) digests same with ⟨next, tail⟩ | collide
      · by_cases strings : state ++ root = otherState ++ otherRoot
        · -- States are of one size, so the strings part at the same place.
          obtain ⟨states, roots⟩ := List.append_inj strings size
          exact .inl ⟨states, congrArg₂ List.cons roots tail⟩
        · exact .inr ⟨_, List.mem_cons_self, _, List.mem_cons_self, strings, next⟩
      · -- A collision of later roots is one of all.
        exact .inr (collide.mono (List.subset_cons_self ..) (List.subset_cons_self ..))

end Hasher

namespace Channel

variable {field other : PrimeField} {hasher : Hasher}

/-- The strings hashed to absorb roots while a channel is used. -/
def absorptions (channel : Channel field hasher) : List Action → List Bytes
  | [] => []
  | .commit root :: rest => (channel.state ++ root) :: absorptions (channel.commit root) rest
  | action :: rest => absorptions (channel.use action) rest

/-- The strings hashed to create a channel and to absorb roots while it is used. -/
def creationAndAbsorptions (field : PrimeField) (hasher : Hasher) (seed : Bytes)
    (actions : List Action) : List Bytes :=
  (seedTag ++ seed) :: absorptions (ofSeed field hasher seed) actions

/-- What is hashed depends on the roots alone, whatever is drawn in between. -/
theorem absorptions_eq_chainMessages (channel : Channel field hasher) (actions : List Action) :
    channel.absorptions actions = hasher.chainMessages channel.state (absorbed actions) := by
  induction actions generalizing channel with
  | nil => rfl
  | cons action rest ih =>
    cases action with
    | commit root => exact congrArg ((channel.state ++ root) :: ·) (ih (channel.commit root))
    | drawChallenge =>
      -- A draw leaves the state alone.
      have state := (channel.use_state .drawChallenge).1
      exact (ih _).trans (congrArg (hasher.chainMessages · (absorbed rest)) state)
    | drawPositions count domainSize =>
      have state := (channel.use_state (.drawPositions count domainSize)).1
      exact (ih _).trans (congrArg (hasher.chainMessages · (absorbed rest)) state)

/-- Two channels that have absorbed equally many roots and are in the same state have the same seed and
the same roots, or two different strings that they hashed to get there have the same digest. -/
theorem seed_and_commitments_binding {seed otherSeed : Bytes} {actions otherActions : List Action}
    (count : (absorbed actions).length = (absorbed otherActions).length)
    (state : ((ofSeed field hasher seed).run actions).state
      = ((ofSeed other hasher otherSeed).run otherActions).state) :
    (seed = otherSeed ∧ absorbed actions = absorbed otherActions) ∨
      hasher.Collide (creationAndAbsorptions field hasher seed actions)
        (creationAndAbsorptions other hasher otherSeed otherActions) := by
  -- Both states are chains over the absorbed roots, and what is hashed is what the chains hash.
  rw [((ofSeed field hasher seed).run_state actions).1,
    ((ofSeed other hasher otherSeed).run_state otherActions).1] at state
  unfold creationAndAbsorptions
  rw [absorptions_eq_chainMessages, absorptions_eq_chainMessages]
  -- A channel is created in the state of its seed's digest, which has one size for all seeds.
  have size : (ofSeed field hasher seed).state.length = (ofSeed other hasher otherSeed).state.length :=
    (hasher.length_digest _).trans (hasher.length_digest _).symm
  rcases hasher.chain_binding count size state with ⟨created, roots⟩ | collide
  · by_cases seeds : seedTag ++ seed = seedTag ++ otherSeed
    · -- The tag in front of the seeds is the same.
      exact .inl ⟨List.append_cancel_left seeds, roots⟩
    · -- Different seeds collide before any root is absorbed.
      exact .inr ⟨_, List.mem_cons_self, _, List.mem_cons_self, seeds, created⟩
  · -- A collision of the chains is one of all that is hashed.
    exact .inr (collide.mono (List.subset_cons_self ..) (List.subset_cons_self ..))

/-- Two roots with draws before and between them. -/
def drawnBetween : List Action :=
  [.drawPositions 3 8, .commit [5, 6], .drawChallenge, .commit [7]]

/-- The same two roots in a row, and two draws after them. -/
def drawnAfter : List Action :=
  [.commit [5, 6], .commit [7], .drawChallenge, .drawChallenge]

/-- Channels over different fields, drawn from at different times, are in the same state. -/
theorem seed_and_commitments_binding_two_roots :
    (absorbed drawnBetween).length = (absorbed drawnAfter).length ∧
      ((ofSeed PrimeField.goldilocks Hasher.sha3 [1]).run drawnBetween).state
        = ((ofSeed PrimeField.catalogue[5] Hasher.sha3 [1]).run drawnAfter).state ∧
      ((([1] : Bytes) = [1] ∧ absorbed drawnBetween = absorbed drawnAfter) ∨
        Hasher.sha3.Collide
          (creationAndAbsorptions PrimeField.goldilocks Hasher.sha3 [1] drawnBetween)
          (creationAndAbsorptions PrimeField.catalogue[5] Hasher.sha3 [1] drawnAfter)) := by
  -- Both absorb the same roots after the same seed.
  have roots : absorbed drawnBetween = absorbed drawnAfter := rfl
  have count := congrArg List.length roots
  have state := (run_eq_of_absorbed PrimeField.goldilocks PrimeField.catalogue[5] Hasher.sha3 [1]
    roots).1
  exact ⟨count, state, seed_and_commitments_binding count state⟩

end Channel

end Proximity
