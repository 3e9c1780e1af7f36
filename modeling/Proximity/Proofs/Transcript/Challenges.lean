import Mathlib
import Proximity.Transcript.Channel

/-! Challenges are decided by the roots absorbed before them, whatever was drawn in between. -/

namespace Proximity

namespace Channel

variable {field : PrimeField} {hasher : Hasher}

/-- Absorbs some roots without drawing anything. -/
def absorb (channel : Channel field hasher) (roots : List Bytes) : Channel field hasher :=
  roots.foldl commit channel

/-- The challenge that comes first after some roots. -/
def challengeAfter (channel : Channel field hasher) (roots : List Bytes) :
    Except Fault (Element field) :=
  (channel.absorb roots).drawChallenge.1

/-- Drawing leaves the state and the absorbed roots alone. -/
theorem drawChallenge_keeps (channel : Channel field hasher) :
    channel.drawChallenge.2.state = channel.state ∧
      channel.drawChallenge.2.commitments = channel.commitments ∧
      channel.challenges ≤ channel.drawChallenge.2.challenges := by
  -- A refused draw leaves everything alone; another one moves both counters only.
  unfold drawChallenge
  split
  · exact ⟨rfl, rfl, Nat.le_refl _⟩
  · dsimp only
    split
    · -- A search that has found an element is counted.
      exact ⟨rfl, rfl, Nat.le_succ _⟩
    · -- So is one that has found none.
      exact ⟨rfl, rfl, Nat.le_succ _⟩

/-- A challenge comes from the first digest that spells one, once enough roots have been absorbed. -/
theorem drawChallenge_eq_ok_iff {channel : Channel field hasher} {challenge : Element field} :
    channel.drawChallenge.1 = .ok challenge ↔
      channel.challenges < channel.commitments.length ∧
        (firstAccepted (fun number => candidate? field (channel.squeeze number))
          (remainingNumbers channel.counter) channel.counter).1 = some challenge := by
  -- The count of roots is checked before the first digest is taken.
  unfold drawChallenge
  split
  · -- With too few roots nothing is drawn.
    rename_i stuck
    simp only [reduceCtorEq, Nat.not_lt.mpr stuck, false_and]
  · rename_i ahead
    dsimp only
    split
    · -- The element found is the one that is drawn.
      rename_i found
      simp only [Nat.not_le.mp ahead, found, Except.ok.injEq, Option.some.injEq, true_and]
    · -- A search without an element draws none.
      rename_i missed
      simp only [missed, reduceCtorEq, and_false]

/-- Channels that hash the same strings next, whatever has been drawn from them and absorbed. -/
structure InStep (left right : Channel field hasher) : Prop where
  state : left.state = right.state
  counter : left.counter = right.counter

namespace InStep

variable {left right : Channel field hasher}

/-- Numbers lead to the same digests. -/
theorem squeeze_eq (inStep : InStep left right) : left.squeeze = right.squeeze := by
  -- Only the state goes into a digest.
  funext number
  rw [squeeze, squeeze, inStep.state]

/-- If neither channel lacks a root, both draw the same challenge and stay in step. -/
theorem drawChallenge (inStep : InStep left right)
    (ahead : left.challenges < left.commitments.length)
    (otherAhead : right.challenges < right.commitments.length) :
    left.drawChallenge.1 = right.drawChallenge.1 ∧
      InStep left.drawChallenge.2 right.drawChallenge.2 := by
  -- Both search the same digests from the same number on.
  simp only [Channel.drawChallenge, if_neg (Nat.not_le.mpr ahead), if_neg (Nat.not_le.mpr otherAhead),
    inStep.squeeze_eq, inStep.counter]
  split
  · -- An element is found at the same number.
    exact ⟨rfl, inStep.state, rfl⟩
  · -- Or both have run out of numbers.
    exact ⟨rfl, inStep.state, rfl⟩

end InStep

/-- A channel that has absorbed the same as another one, and from which no more has been drawn. -/
structure Behind (replayed channel : Channel field hasher) : Prop where
  state : replayed.state = channel.state
  commitments : replayed.commitments = channel.commitments
  challenges : replayed.challenges ≤ channel.challenges

namespace Behind

variable {replayed channel : Channel field hasher}

/-- Every channel has absorbed the same as itself. -/
theorem refl (channel : Channel field hasher) : Behind channel channel :=
  ⟨rfl, rfl, Nat.le_refl _⟩

/-- Both channels may absorb one more root. -/
theorem commit (behind : Behind replayed channel) (root : Bytes) :
    Behind (replayed.commit root) (channel.commit root) := by
  -- The new state is the digest of the old one and the root.
  refine ⟨?_, ?_, behind.challenges⟩
  · show hasher.digest (replayed.state ++ root) = hasher.digest (channel.state ++ root)
    rw [behind.state]
  · show replayed.commitments ++ [root] = channel.commitments ++ [root]
    rw [behind.commitments]

/-- The other channel may have another challenge drawn from it. -/
theorem drawChallenge (behind : Behind replayed channel) :
    Behind replayed channel.drawChallenge.2 := by
  -- A draw counts more challenges, and keeps all else.
  obtain ⟨state, commitments, challenges⟩ := channel.drawChallenge_keeps
  exact ⟨behind.state.trans state.symm, behind.commitments.trans commitments.symm,
    behind.challenges.trans challenges⟩

/-- Right after a root both channels give the same challenge. -/
theorem challenge_eq (behind : Behind replayed channel) {root : Bytes} {challenge : Element field}
    (drawn : (channel.commit root).drawChallenge.1 = .ok challenge) :
    (replayed.commit root).drawChallenge.1 = .ok challenge := by
  have after := behind.commit root
  -- Absorbing has set both counters back.
  have inStep : InStep (channel.commit root) (replayed.commit root) := ⟨after.state.symm, rfl⟩
  have ahead := (drawChallenge_eq_ok_iff.mp drawn).1
  -- The replayed channel has as many roots and no more challenges, so it lacks none either.
  have otherAhead : (replayed.commit root).challenges < (replayed.commit root).commitments.length := by
    rw [after.commitments]
    exact Nat.lt_of_le_of_lt after.challenges ahead
  rw [← (inStep.drawChallenge ahead otherAhead).1]
  exact drawn

end Behind

end Channel

end Proximity
