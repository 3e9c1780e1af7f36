import Mathlib
import Proximity.Proofs.Transcript.Challenges
import Proximity.Proofs.Transcript.Distinct

/-! Whatever a channel is used for, its state is the hash chain over the roots it has absorbed, and no
more challenges have been drawn than roots absorbed. -/

namespace Proximity

namespace Hasher

/-- The state that absorbing some roots leads to: each is hashed behind the state before it. -/
def chain (hasher : Hasher) (state : Bytes) (roots : List Bytes) : Bytes :=
  roots.foldl (fun state root => hasher.digest (state ++ root)) state

end Hasher

namespace Channel

variable {field : PrimeField} {hasher : Hasher}

/-- One use of a channel. -/
inductive Action where
  | commit (root : Bytes)
  | drawChallenge
  | drawPositions (count domainSize : Int)

/-- The root that is absorbed by a use, unless something is drawn. -/
def Action.root? : Action → Option Bytes
  | commit root => some root
  | drawChallenge => none
  | drawPositions _ _ => none

/-- What a use leaves of the channel, whether it is refused or not. -/
def use (channel : Channel field hasher) : Action → Channel field hasher
  | .commit root => channel.commit root
  | .drawChallenge => channel.drawChallenge.2
  | .drawPositions count domainSize => (channel.drawPositions count domainSize).2

/-- The channel after some uses. -/
def run (channel : Channel field hasher) (actions : List Action) : Channel field hasher :=
  actions.foldl use channel

/-- The roots that some uses absorb. -/
def absorbed (actions : List Action) : List Bytes :=
  actions.filterMap Action.root?

/-- A channel that some uses have led to since it was created. -/
def Reachable (channel : Channel field hasher) : Prop :=
  ∃ seed actions, channel = (ofSeed field hasher seed).run actions

/-- Under the channel's state, none of the counter's values spells an element. -/
def Exhausted (channel : Channel field hasher) : Prop :=
  ∀ number, 0 < number → number < counterLimit → candidate? field (channel.squeeze number) = none

/-- Everything a draw of a challenge can do: without a root to bind to it changes nothing; else it is
counted, and finds an element unless all numbers behind the counter are refused. -/
theorem drawChallenge_cases (channel : Channel field hasher) :
    (channel.commitments.length ≤ channel.challenges ∧
        channel.drawChallenge = (.error .unboundChallenge, channel)) ∨
      channel.challenges < channel.commitments.length ∧
        (∃ counter, channel.drawChallenge.2
          = { channel with counter, challenges := channel.challenges + 1 }) ∧
        ((∃ challenge, channel.drawChallenge.1 = .ok challenge) ∨
          channel.drawChallenge.1 = .error .counterExhausted ∧
            ∀ number, channel.counter < number → number < counterLimit →
              candidate? field (channel.squeeze number) = none) := by
  -- One more root than challenges has to be there, which is checked first.
  rcases Nat.lt_or_ge channel.challenges channel.commitments.length with ahead | stuck
  · refine .inr ⟨ahead, ?_⟩
    rcases drawChallenge_least ahead with ⟨number, challenge, _, _, _, drawn⟩ | ⟨missed, drawn⟩
    · -- The search ends at an element.
      rw [drawn]
      exact ⟨⟨_, rfl⟩, .inl ⟨_, rfl⟩⟩
    · -- A candidate that is no element is what its digest is refused for.
      rw [drawn]
      exact ⟨⟨_, rfl⟩, .inr ⟨rfl, fun number above below =>
        candidate?_eq_none_iff.mpr (missed number above below)⟩⟩
  · -- Without a root ahead the draw stops at that check.
    exact .inl ⟨stuck, if_pos stuck⟩

/-- A draw is refused exactly if there are no more roots than challenges. -/
theorem drawChallenge_refused_iff (channel : Channel field hasher) :
    channel.drawChallenge = (.error .unboundChallenge, channel) ↔
      channel.commitments.length ≤ channel.challenges := by
  rcases channel.drawChallenge_cases with ⟨stuck, refused⟩ | ⟨ahead, ⟨counter, counted⟩, _⟩
  · -- With no root ahead there is the one outcome.
    exact ⟨fun _ => stuck, fun _ => refused⟩
  · -- A draw that is counted changes the channel.
    constructor
    · intro refused
      have challenges := congrArg Channel.challenges counted
      rw [refused] at challenges
      exact absurd challenges (Nat.ne_of_lt (Nat.lt_succ_self _))
    · exact fun stuck => absurd ahead (Nat.not_lt.mpr stuck)

/-- Right after a root has been absorbed a challenge can be drawn, or all values of the counter are
refused; as many challenges as roots is the most there can be. -/
theorem drawChallenge_commit {channel : Channel field hasher}
    (bounded : channel.challenges ≤ channel.commitments.length) (root : Bytes) :
    (channel.commit root).drawChallenge.2.challenges = channel.challenges + 1 ∧
      ((∃ challenge, (channel.commit root).drawChallenge.1 = .ok challenge) ∨
        (channel.commit root).drawChallenge.1 = .error .counterExhausted ∧
          (channel.commit root).drawChallenge.2.Exhausted) := by
  have length : (channel.commit root).commitments.length = channel.commitments.length + 1 :=
    List.length_append
  have challenges : (channel.commit root).challenges = channel.challenges := rfl
  -- One more root has been absorbed than challenges were drawn before it.
  rcases (channel.commit root).drawChallenge_cases with
    ⟨stuck, _⟩ | ⟨_, ⟨counter, counted⟩, outcome⟩
  · -- So the draw is not refused for lack of a root.
    omega
  · refine ⟨by rw [counted, challenges], outcome.imp_right fun exhausted => ⟨exhausted.1, ?_⟩⟩
    -- Absorbing has set the counter back, and drawing keeps the state.
    intro number positive below
    rw [counted]
    exact exhausted.2 number positive below

/-- Drawing positions moves nothing but the counter. -/
theorem drawPositions_keeps (channel : Channel field hasher) (count domainSize : Int) :
    ∃ counter, (channel.drawPositions count domainSize).2 = { channel with counter } := by
  -- What cannot be drawn is refused before the search.
  by_cases drawable : Drawable count domainSize
  · -- A search moves the counter, whether it ends in positions or without them.
    rcases channel.drawPositions_least drawable with ⟨used, _, _, _, drawn⟩ | ⟨_, exhausted⟩
    · exact ⟨_, congrArg Prod.snd drawn⟩
    · exact ⟨_, congrArg Prod.snd exhausted⟩
  · -- A refused request does not even move the counter.
    obtain ⟨fault, _, refused⟩ := channel.drawPositions_of_not_drawable drawable
    exact ⟨channel.counter, congrArg Prod.snd refused⟩

/-- A use moves the state along the chain by the root it absorbs, if any, and lists that root. -/
theorem use_state (channel : Channel field hasher) (action : Action) :
    (channel.use action).state = hasher.chain channel.state action.root?.toList ∧
      (channel.use action).commitments = channel.commitments ++ action.root?.toList := by
  cases action with
  | commit root => exact ⟨rfl, rfl⟩
  -- A draw leaves state and roots alone, and absorbs nothing.
  | drawChallenge =>
    obtain ⟨state, commitments, _⟩ := channel.drawChallenge_keeps
    exact ⟨state, commitments.trans (List.append_nil _).symm⟩
  | drawPositions count domainSize =>
    -- Positions move the counter, and nothing that is asked about.
    obtain ⟨counter, kept⟩ := channel.drawPositions_keeps count domainSize
    have same : channel.use (.drawPositions count domainSize) = { channel with counter } := kept
    rw [same]
    exact ⟨rfl, (List.append_nil _).symm⟩

/-- The state after some uses is the chain over the roots they absorb, which are listed in order. -/
theorem run_state (channel : Channel field hasher) (actions : List Action) :
    (channel.run actions).state = hasher.chain channel.state (absorbed actions) ∧
      (channel.run actions).commitments = channel.commitments ++ absorbed actions := by
  -- Each use starts from the channel that the one before has left.
  induction actions generalizing channel with
  | nil => exact ⟨rfl, (List.append_nil _).symm⟩
  | cons action rest ih =>
    obtain ⟨state, commitments⟩ := channel.use_state action
    obtain ⟨restState, restCommitments⟩ := ih (channel.use action)
    -- The first use absorbs the first root, if it absorbs one.
    have roots : absorbed (action :: rest) = action.root?.toList ++ absorbed rest := by
      cases action <;> rfl
    refine ⟨?_, ?_⟩
    · -- The chain over both parts is the chain over the second from the end of the first.
      rw [roots, Hasher.chain, List.foldl_append]
      exact restState.trans (congrArg (hasher.chain · (absorbed rest)) state)
    · rw [roots, ← List.append_assoc, ← commitments]
      exact restCommitments

/-- Channels of one seed that absorb the same roots list them alike and end in the same state, whatever is
drawn from them and over which fields. -/
theorem run_eq_of_absorbed (field other : PrimeField) (hasher : Hasher) (seed : Bytes)
    {actions otherActions : List Action} (roots : absorbed actions = absorbed otherActions) :
    ((ofSeed field hasher seed).run actions).state
        = ((ofSeed other hasher seed).run otherActions).state ∧
      ((ofSeed field hasher seed).run actions).commitments
        = ((ofSeed other hasher seed).run otherActions).commitments := by
  -- Both are the chain over the same roots from the same digest, which no field takes part in.
  obtain ⟨state, commitments⟩ := (ofSeed field hasher seed).run_state actions
  obtain ⟨otherState, otherCommitments⟩ := (ofSeed other hasher seed).run_state otherActions
  rw [state, commitments, otherState, otherCommitments, roots]
  exact ⟨rfl, rfl⟩

/-- A use counts at most as many challenges as there are roots. -/
theorem use_challenges_le {channel : Channel field hasher}
    (bounded : channel.challenges ≤ channel.commitments.length) (action : Action) :
    (channel.use action).challenges ≤ (channel.use action).commitments.length := by
  cases action with
  -- A root adds to the roots only.
  | commit root =>
    show channel.challenges ≤ (channel.commitments ++ [root]).length
    rw [List.length_append]
    omega
  | drawChallenge =>
    -- A draw counts one challenge more, but only if a root is ahead of it.
    show channel.drawChallenge.2.challenges ≤ channel.drawChallenge.2.commitments.length
    rcases channel.drawChallenge_cases with ⟨_, refused⟩ | ⟨ahead, ⟨counter, counted⟩, _⟩
    · rwa [refused]
    · rw [counted]
      exact ahead
  | drawPositions count domainSize =>
    -- Positions are counted neither way.
    show (channel.drawPositions count domainSize).2.challenges
      ≤ (channel.drawPositions count domainSize).2.commitments.length
    obtain ⟨counter, kept⟩ := channel.drawPositions_keeps count domainSize
    rwa [kept]

/-- Uses keep the challenges within the roots. -/
theorem run_challenges_le {channel : Channel field hasher}
    (bounded : channel.challenges ≤ channel.commitments.length) (actions : List Action) :
    (channel.run actions).challenges ≤ (channel.run actions).commitments.length := by
  induction actions generalizing channel with
  | nil => exact bounded
  | cons action rest ih => exact ih (use_challenges_le bounded action)

/-- No more challenges have been drawn from a channel than roots absorbed. -/
theorem Reachable.challenges_le {channel : Channel field hasher} (reachable : channel.Reachable) :
    channel.challenges ≤ channel.commitments.length := by
  -- A channel is created without any of either.
  obtain ⟨seed, actions, rfl⟩ := reachable
  exact run_challenges_le (Nat.le_refl 0) actions

end Channel

end Proximity
