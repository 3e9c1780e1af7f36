import Mathlib
import Proximity.Proofs.Transcript.Binding
import Proximity.Proofs.Transcript.Freshness

/-! What a channel answers is decided by its seed and the roots it has absorbed: once a root has been
absorbed, nothing that was drawn before matters any more. -/

namespace Proximity

namespace Channel

variable {field : PrimeField} {hasher : Hasher}

/-- What a use of a channel is answered with. -/
inductive Answer (field : PrimeField) where
  | absorbed
  | challenge (drawn : Except Fault (Element field))
  | positions (drawn : Except Fault (List Nat))

/-- The refusal of a challenge for lack of a root. -/
def Answer.unbound : Answer field :=
  .challenge (.error .unboundChallenge)

/-- The answer to one use. -/
def answer (channel : Channel field hasher) : Action → Answer field
  | .commit _ => .absorbed
  | .drawChallenge => .challenge channel.drawChallenge.1
  | .drawPositions count domainSize => .positions (channel.drawPositions count domainSize).1

/-- The answers to some uses, each asked of what the uses before it leave of the channel. -/
def answers (channel : Channel field hasher) : List Action → List (Answer field)
  | [] => []
  | action :: rest => channel.answer action :: answers (channel.use action) rest

/-- A challenge is refused for lack of a root exactly if there are no more roots than challenges. -/
theorem answer_drawChallenge_unbound_iff (channel : Channel field hasher) :
    channel.answer .drawChallenge = .unbound ↔
      channel.commitments.length ≤ channel.challenges := by
  -- Of all answers, only that of a challenge can be this refusal.
  have opened : channel.answer .drawChallenge = .unbound ↔
      channel.drawChallenge.1 = .error .unboundChallenge := by
    simp only [answer, Answer.unbound, Answer.challenge.injEq]
  rw [opened]
  rcases channel.drawChallenge_cases with ⟨stuck, refused⟩ | ⟨ahead, _, found | ⟨missed, _⟩⟩
  · -- With as many challenges as roots a draw is refused for that.
    simp [refused, stuck]
  · -- An element that is found is no refusal.
    obtain ⟨challenge, drawn⟩ := found
    simp [drawn, ahead]
  · -- Running out of numbers is another refusal.
    simp [missed, ahead]

namespace InStep

variable {left right : Channel field hasher}

/-- Both channels draw the same positions, or refuse them alike, and stay in step. -/
theorem drawPositions (inStep : InStep left right) (count domainSize : Int) :
    (left.drawPositions count domainSize).1 = (right.drawPositions count domainSize).1 ∧
      InStep (left.drawPositions count domainSize).2 (right.drawPositions count domainSize).2 := by
  -- The two checks look at the request alone.
  simp only [Channel.drawPositions, inStep.squeeze_eq, inStep.counter]
  split
  · -- A request that is out of range is refused by both.
    exact ⟨rfl, inStep⟩
  · split
    · exact ⟨rfl, inStep⟩
    · -- Both search through the same samples from the same number on.
      split
      · exact ⟨rfl, inStep.state, rfl⟩
      · exact ⟨rfl, inStep.state, rfl⟩

/-- As long as neither channel lacks a root, both give the same answers to draws and stay in step. -/
theorem answers_eq (inStep : InStep left right) {draws : List Action} (none : DrawsOnly draws)
    (bound : .unbound ∉ left.answers draws) (otherBound : .unbound ∉ right.answers draws) :
    left.answers draws = right.answers draws ∧ InStep (left.run draws) (right.run draws) := by
  -- The channels that are in step change with each draw, so they are quantified over.
  induction draws generalizing left right with
  | nil => exact ⟨rfl, inStep⟩
  | cons action rest ih =>
    simp only [answers, List.mem_cons, not_or] at bound otherBound
    -- One draw is answered alike and leads to channels that are in step again.
    cases action with
    -- Nothing is absorbed by draws.
    | commit root => simp [DrawsOnly, Channel.absorbed, Action.root?] at none
    | drawChallenge =>
      -- A refusal for lack of a root has been ruled out on both sides.
      have ahead := mt left.answer_drawChallenge_unbound_iff.mpr (Ne.symm bound.1)
      have otherAhead := mt right.answer_drawChallenge_unbound_iff.mpr (Ne.symm otherBound.1)
      obtain ⟨drawn, after⟩ := inStep.drawChallenge (Nat.not_le.mp ahead) (Nat.not_le.mp otherAhead)
      obtain ⟨same, last⟩ := ih after none bound.2 otherBound.2
      exact ⟨congrArg₂ List.cons (congrArg Answer.challenge drawn) same, last⟩
    | drawPositions count domainSize =>
      -- Positions need no root.
      obtain ⟨drawn, after⟩ := inStep.drawPositions count domainSize
      obtain ⟨same, last⟩ := ih after none bound.2 otherBound.2
      exact ⟨congrArg₂ List.cons (congrArg Answer.positions drawn) same, last⟩

end InStep

/-- Draws leave the state and the absorbed roots alone. -/
theorem run_draws_keeps (channel : Channel field hasher) {draws : List Action}
    (none : DrawsOnly draws) :
    (channel.run draws).state = channel.state ∧
      (channel.run draws).commitments = channel.commitments := by
  -- The chain over no roots has not moved.
  obtain ⟨state, commitments⟩ := channel.run_state draws
  rw [none] at state commitments
  exact ⟨state, commitments.trans (List.append_nil _)⟩

/-- The last of some uses sets the counter back if it absorbs a root. -/
theorem counter_run_of_commit (channel : Channel field hasher) {actions : List Action} {root : Bytes}
    (committed : actions.getLast? = some (.commit root)) : (channel.run actions).counter = 0 := by
  -- What is absorbed last starts over, whatever was done before.
  obtain ⟨before, rfl⟩ := List.getLast?_eq_some_iff.mp committed
  rw [run, List.foldl_append]
  rfl

/-- Channels of one seed that have absorbed the same roots, the last of them just now, are in the same
state with the same counter, and answer all draws alike until one of them lacks a root; no draw of any
channel changes its state or its roots. -/
theorem answers_replayed_from_roots (field : PrimeField) (hasher : Hasher) (seed : Bytes)
    {actions otherActions : List Action} {root otherRoot : Bytes}
    (committed : actions.getLast? = some (.commit root))
    (otherCommitted : otherActions.getLast? = some (.commit otherRoot))
    (roots : absorbed actions = absorbed otherActions) :
    let channel := (ofSeed field hasher seed).run actions
    let other := (ofSeed field hasher seed).run otherActions
    (channel.state = other.state ∧ channel.counter = 0 ∧ other.counter = 0) ∧
      (∀ draws, DrawsOnly draws →
        .unbound ∉ channel.answers draws → .unbound ∉ other.answers draws →
          channel.answers draws = other.answers draws) ∧
      ∀ (any : Channel field hasher) (draws : List Action), DrawsOnly draws →
        (any.run draws).state = any.state ∧ (any.run draws).commitments = any.commitments := by
  intro channel other
  -- The state is the chain over the roots, the same for both.
  have state : channel.state = other.state :=
    (run_eq_of_absorbed field field hasher seed roots).1
  have counter : channel.counter = 0 := counter_run_of_commit _ committed
  have otherCounter : other.counter = 0 := counter_run_of_commit _ otherCommitted
  -- Both counters start from zero, so the two are in step.
  have inStep : InStep channel other := ⟨state, counter.trans otherCounter.symm⟩
  exact ⟨⟨state, counter, otherCounter⟩,
    fun draws none bound otherBound => (inStep.answers_eq none bound otherBound).1,
    fun any draws none => any.run_draws_keeps none⟩

/-- A channel that has just absorbed a root can bind a challenge to it. -/
theorem challenges_lt_of_commit (field : PrimeField) (hasher : Hasher) (seed : Bytes)
    {actions : List Action} {root : Bytes} (committed : actions.getLast? = some (.commit root)) :
    ((ofSeed field hasher seed).run actions).challenges
      < ((ofSeed field hasher seed).run actions).commitments.length := by
  -- Before the last root there were no more challenges than roots.
  obtain ⟨before, rfl⟩ := List.getLast?_eq_some_iff.mp committed
  have bounded : ((ofSeed field hasher seed).run before).challenges
      ≤ ((ofSeed field hasher seed).run before).commitments.length :=
    Reachable.challenges_le ⟨seed, before, rfl⟩
  -- The last root is one more.
  rw [run, List.foldl_append]
  show ((ofSeed field hasher seed).run before).challenges
    < (((ofSeed field hasher seed).run before).commitments ++ [root]).length
  rw [List.length_append]
  exact Nat.lt_succ_of_le bounded

/-- Two roots with nothing but refusals before and between them. -/
def refusedBetween : List Action :=
  [.drawChallenge, .commit [5, 6], .drawPositions 0 8, .commit [7]]

/-- A request for positions, and one for a challenge. -/
def positionsAndChallenge : List Action :=
  [.drawPositions 2 8, .drawChallenge]

/-- Positions and a challenge behind a root are never refused for lack of one. -/
theorem unbound_not_mem_positionsAndChallenge {channel : Channel field hasher}
    (ahead : channel.challenges < channel.commitments.length) :
    .unbound ∉ channel.answers positionsAndChallenge := by
  obtain ⟨counter, kept⟩ := channel.drawPositions_keeps 2 8
  -- The positions move the counter only.
  have after : channel.use (.drawPositions 2 8) = { channel with counter } := kept
  have bound := mt (channel.use (.drawPositions 2 8)).answer_drawChallenge_unbound_iff.mp
    (by rw [after]; exact Nat.not_le.mpr ahead)
  simp only [positionsAndChallenge, answers, List.mem_cons, List.not_mem_nil, or_false, not_or]
  -- Positions are another answer than that of a challenge.
  exact ⟨by simp [Answer.unbound, answer], Ne.symm bound⟩

/-- A channel drawn from between two roots answers like one that has only refused in between. -/
theorem answers_replayed_from_two_roots :
    let channel := (ofSeed PrimeField.goldilocks Hasher.sha3 [1]).run drawnBetween
    let other := (ofSeed PrimeField.goldilocks Hasher.sha3 [1]).run refusedBetween
    drawnBetween.getLast? = some (.commit [7]) ∧ refusedBetween.getLast? = some (.commit [7]) ∧
      absorbed drawnBetween = absorbed refusedBetween ∧ DrawsOnly positionsAndChallenge ∧
      .unbound ∉ channel.answers positionsAndChallenge ∧
      .unbound ∉ other.answers positionsAndChallenge ∧
      (channel.state = other.state ∧ channel.counter = 0 ∧ other.counter = 0) ∧
      channel.answers positionsAndChallenge = other.answers positionsAndChallenge ∧
      (channel.run positionsAndChallenge).state = channel.state ∧
      (channel.run positionsAndChallenge).commitments = channel.commitments := by
  intro channel other
  have committed : drawnBetween.getLast? = some (.commit [7]) := rfl
  have otherCommitted : refusedBetween.getLast? = some (.commit [7]) := rfl
  have roots : absorbed drawnBetween = absorbed refusedBetween := rfl
  -- A root has just been absorbed by both, so neither refuses the draws.
  have bound := unbound_not_mem_positionsAndChallenge
    (challenges_lt_of_commit PrimeField.goldilocks Hasher.sha3 [1] committed)
  have otherBound := unbound_not_mem_positionsAndChallenge
    (challenges_lt_of_commit PrimeField.goldilocks Hasher.sha3 [1] otherCommitted)
  obtain ⟨reset, alike, kept⟩ :=
    answers_replayed_from_roots PrimeField.goldilocks Hasher.sha3 [1] committed otherCommitted roots
  exact ⟨committed, otherCommitted, roots, rfl, bound, otherBound, reset,
    alike _ rfl bound otherBound, kept channel _ rfl⟩

end Channel

end Proximity
