import Mathlib
import Proximity.Field.Catalogue
import Proximity.Proofs.Transcript.Runs

/-! When a challenge is refused for lack of a root: only the numbers of roots and challenges are compared,
so roots absorbed in a row pay for challenges drawn in a row. -/

namespace Proximity

namespace Channel

variable {field : PrimeField} {hasher : Hasher}

/-- Uses that absorb nothing. -/
def DrawsOnly (actions : List Action) : Prop :=
  absorbed actions = []

/-- As long as nothing is absorbed, a channel with as many challenges as roots stays that way. -/
theorem run_draws_settled {channel : Channel field hasher}
    (settled : channel.challenges = channel.commitments.length) {draws : List Action}
    (none : DrawsOnly draws) :
    (channel.run draws).challenges = (channel.run draws).commitments.length := by
  -- Each draw leaves the counts as they were, so the rest starts from a settled channel again.
  induction draws generalizing channel with
  | nil => exact settled
  | cons action rest ih =>
    cases action with
    -- A root would have been absorbed.
    | commit root => simp [DrawsOnly, absorbed, Action.root?] at none
    | drawChallenge =>
      -- The draw is refused, and leaves the channel as it is.
      have refused := channel.drawChallenge_refused_iff.mpr settled.ge
      have same : channel.run (.drawChallenge :: rest) = channel.run rest :=
        congrArg (fun after => run after rest) (congrArg Prod.snd refused)
      rw [same]
      exact ih settled none
    | drawPositions count domainSize =>
      -- Positions are not counted.
      obtain ⟨counter, kept⟩ := channel.drawPositions_keeps count domainSize
      have still : (channel.drawPositions count domainSize).2.challenges
          = (channel.drawPositions count domainSize).2.commitments.length := by rwa [kept]
      exact ih still none

/-- After whatever uses, challenges are refused until the next root exactly if as many of them have been
drawn as roots absorbed; there are never more. -/
theorem refused_until_commit_iff (field : PrimeField) (hasher : Hasher) (seed : Bytes)
    (actions : List Action) :
    ((ofSeed field hasher seed).run actions).challenges
        ≤ ((ofSeed field hasher seed).run actions).commitments.length ∧
      ((∀ draws, DrawsOnly draws →
          (((ofSeed field hasher seed).run actions).run draws).drawChallenge
            = (.error .unboundChallenge, ((ofSeed field hasher seed).run actions).run draws)) ↔
        ((ofSeed field hasher seed).run actions).challenges
          = ((ofSeed field hasher seed).run actions).commitments.length) := by
  -- Both counts start at zero, and no use lets the challenges pass the roots.
  have bounded : ((ofSeed field hasher seed).run actions).challenges
      ≤ ((ofSeed field hasher seed).run actions).commitments.length :=
    Reachable.challenges_le ⟨seed, actions, rfl⟩
  refine ⟨bounded, fun refused => ?_, fun settled draws none => ?_⟩
  · -- The draw that comes at once is refused, so there is no root left.
    have atOnce := refused [] rfl
    exact bounded.antisymm ((drawChallenge_refused_iff _).mp atOnce)
  · -- With no root left now there is none left after any draws.
    exact (drawChallenge_refused_iff _).mpr (run_draws_settled settled none).ge

/-- The known field of two elements. -/
def binary : PrimeField :=
  PrimeField.catalogue[0]

/-- In the field of two elements the first digest spells a challenge, if there is a root to bind it to. -/
theorem drawChallenge_binary (channel : Channel binary hasher)
    (ahead : channel.challenges < channel.commitments.length) (left : channel.counter + 1 < counterLimit) :
    ∃ challenge, channel.drawChallenge = (.ok challenge,
      { channel with counter := channel.counter + 1, challenges := channel.challenges + 1 }) := by
  -- One binary digit of the digest is kept, and both its values are elements.
  have inside : channel.elementCandidate (channel.counter + 1) < binary.order :=
    Nat.mod_lt _ (by decide)
  exact ⟨_, drawChallenge_next ahead inside left⟩

/-- A channel over the field of two elements that has absorbed two roots in a row. -/
def twoRoots : Channel binary Hasher.sha3 :=
  (ofSeed binary Hasher.sha3 []).run [.commit [1], .commit [2]]

/-- After two roots in a row a second challenge is drawn although no root came after the first. -/
theorem second_challenge_without_root :
    ∃ first second, twoRoots.drawChallenge.1 = .ok first ∧
      twoRoots.drawChallenge.2.commitments = twoRoots.commitments ∧
      twoRoots.drawChallenge.2.drawChallenge.1 = .ok second := by
  have inRange : 0 + 1 + 1 < counterLimit := by decide
  -- Two roots are ahead of no challenge, and then of one.
  obtain ⟨first, drawn⟩ := drawChallenge_binary twoRoots Nat.two_pos
    (Nat.lt_of_succ_lt inRange)
  obtain ⟨second, again⟩ := drawChallenge_binary
    { twoRoots with counter := 1, challenges := 1 } Nat.one_lt_two inRange
  refine ⟨first, second, congrArg Prod.fst drawn, ?_, ?_⟩
  · rw [drawn]
  · -- The second draw starts where the first has left the channel.
    rw [drawn]
    exact congrArg Prod.fst again

end Channel

end Proximity
