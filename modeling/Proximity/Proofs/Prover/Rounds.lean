import Mathlib
import Proximity.Prover
import Proximity.Proofs.Layout
import Proximity.Proofs.Merkle.Levels
import Proximity.Proofs.Options
import Proximity.Proofs.Projection
import Proximity.Proofs.Transcript.Challenges

/-! A commit phase is a list of rounds, each of which starts from what the one before has led to. -/

namespace Proximity

open scoped Element

variable {field other : PrimeField} {hasher others : Hasher} {options : Options field}

/-- One round that has gone through, from the vector it commits to down to the folded one. -/
structure Round (options : Options field) (hasher : Hasher) (other : PrimeField) (others : Hasher) where
  offset : Element field
  values : Array (Element field)
  before : Channel other others
  table : Table (Element field)
  tree : MerkleTree hasher
  challenge : Element other
  after : Channel other others
  folded : Array (Element field)
  committed : Prover.commitRows options hasher values = .ok (table, tree)
  drawn : (before.commit tree.root).drawChallenge = (.ok challenge, after)
  projected : projectRows table offset.value challenge.value = .ok folded

/-- Vectors are committed to for a supported factor, under the tree over the digests of their rows. -/
theorem commitRows_eq_ok_iff {values : Array (Element field)} {table : Table (Element field)}
    {tree : MerkleTree hasher} :
    Prover.commitRows options hasher values = .ok (table, tree) ↔
      options.foldingFactor ∈ supportedFactors ∧
        splitRows values options.foldingFactor = .ok table ∧
        ∃ leaves, hashRows hasher table = .ok leaves ∧ MerkleTree.ofLeaves hasher leaves = .ok tree := by
  -- A factor that is not supported is refused before anything else.
  unfold Prover.commitRows
  by_cases supported : options.foldingFactor ∈ supportedFactors
  · simp only [supported, not_true_eq_false, if_false, true_and, bind_eq_ok_iff, pure_eq_ok,
      Except.ok.injEq, Prod.mk.injEq]
    constructor
    · intro committed
      obtain ⟨_, split, leaves, hashed, _, built, rfl, rfl⟩ := committed
      exact ⟨split, leaves, hashed, built⟩
    · intro steps
      obtain ⟨split, leaves, hashed, built⟩ := steps
      exact ⟨_, split, leaves, hashed, _, built, rfl, rfl⟩
  · simp [supported]

namespace Round

variable (round : Round options hasher other others)

/-- What the prover keeps of a round. -/
def layer : Layer field hasher where
  tree := round.tree
  evaluations := round.table.cells

/-- The channel goes on from where the challenge was drawn. -/
theorem after_eq : (round.before.commit round.tree.root).drawChallenge.2 = round.after := by
  rw [round.drawn]

/-- The rows are those of the vector. -/
theorem splitRows_eq : splitRows round.values options.foldingFactor = .ok round.table :=
  (commitRows_eq_ok_iff.mp round.committed).2.1

/-- The leaves are the digests of the rows. -/
theorem hashRows_eq : hashRows hasher round.table = .ok round.tree.leaves := by
  -- The tree keeps the leaves it was built over, which are what the rows hash to.
  obtain ⟨_, _, leaves, hashed, built⟩ := commitRows_eq_ok_iff.mp round.committed
  rw [MerkleTree.leaves_of_ofLeaves built, hashed]

/-- The tree is the one over these leaves. -/
theorem ofLeaves_eq : MerkleTree.ofLeaves hasher round.tree.leaves = .ok round.tree := by
  obtain ⟨_, _, leaves, _, built⟩ := commitRows_eq_ok_iff.mp round.committed
  rw [MerkleTree.leaves_of_ofLeaves built, built]

/-- The rows are as wide as the factor says. -/
theorem width_table : round.table.width = options.foldingFactor :=
  (splitRows_eq_ok_iff.mp round.splitRows_eq).2.2

/-- There is one leaf for each row. -/
theorem leafCount_tree : round.tree.leafCount = round.table.height := by
  rw [MerkleTree.leafCount, length_collect round.hashRows_eq, Table.length_rows]

/-- There is at least one row. -/
theorem height_table_pos : 0 < round.table.height := by
  rw [← round.leafCount_tree, MerkleTree.leafCount_eq]
  exact Nat.two_pow_pos _

/-- A round divides the number of values by the factor. -/
theorem size_folded : round.folded.size = round.values.size / options.foldingFactor := by
  -- Every row becomes one value.
  rw [size_projectRows round.projected, ← height_mul_width_of_splitRows round.splitRows_eq,
    Nat.mul_div_cancel _ options.foldingFactor_pos]

end Round

/-- Rounds that lead from an offset, a vector and a channel to another channel, each of them on the fold
of the one before. -/
def Linked (offset : Element field) (values : Array (Element field)) (channel : Channel other others) :
    (rounds : List (Round options hasher other others)) → (after : Channel other others) → Prop
  | [], after => channel = after
  | round :: rest, after =>
    round.offset = offset ∧ round.values = values ∧ round.before = channel ∧
      Linked (offset ^ options.foldingFactor) round.folded round.after rest after

/-- A layer that is returned comes from a round that has gone through. -/
theorem exists_round_of_commitLayer {offset : Element field} {values folded : Array (Element field)}
    {channel after : Channel other others} {layer : Layer field hasher}
    (ran : Prover.commitLayer options hasher offset values channel = (.ok (layer, folded), after)) :
    ∃ round : Round options hasher other others, round.offset = offset ∧ round.values = values ∧
      round.before = channel ∧ round.layer = layer ∧ round.folded = folded ∧ round.after = after := by
  unfold Prover.commitLayer at ran
  split at ran
  · -- A vector that cannot be committed to draws no challenge and leaves no layer.
    simp at ran
  · -- The root is absorbed first, then the challenge is drawn, then the rows are folded.
    rename_i table tree committed
    simp only [Prod.mk.injEq] at ran
    obtain ⟨finished, rfl⟩ := ran
    obtain ⟨challenge, drawn, rest⟩ := bind_eq_ok_iff.mp finished
    obtain ⟨folded, projected, returned⟩ := bind_eq_ok_iff.mp rest
    simp only [pure_eq_ok, Except.ok.injEq, Prod.mk.injEq] at returned
    obtain ⟨rfl, rfl⟩ := returned
    exact ⟨⟨offset, values, channel, table, tree, challenge, _, folded, committed,
      Prod.ext drawn rfl, projected⟩, rfl, rfl, rfl, rfl, rfl, rfl⟩

/-- Layers that are stored come from rounds that lead to one another, as many as were asked for unless
one of them was refused. -/
theorem exists_linked_of_commitLayers {count : Nat} {offset : Element field}
    {values : Array (Element field)} {channel after : Channel other others}
    {outcome : Except Fault Unit} {layers : List (Layer field hasher)}
    (ran : Prover.commitLayers options hasher count offset values channel
      = (outcome, layers, after)) :
    ∃ (rounds : List (Round options hasher other others)) (between : Channel other others),
      Linked offset values channel rounds between ∧ layers = rounds.map Round.layer ∧
        rounds.length ≤ count ∧ (outcome = .ok () ↔ rounds.length = count) ∧
        (outcome = .ok () → between = after) := by
  induction count generalizing offset values channel layers with
  | zero =>
    -- Without a layer to commit to, the channel is left as it was.
    simp only [Prover.commitLayers, Prod.mk.injEq] at ran
    obtain ⟨rfl, rfl, rfl⟩ := ran
    exact ⟨[], channel, rfl, rfl, Nat.le_refl 0, iff_of_true rfl rfl, fun _ => rfl⟩
  | succ count ih =>
    -- Whatever is stored begins with the first round, and stops there if that one was refused.
    unfold Prover.commitLayers at ran
    split at ran
    · -- A first round that is refused stores nothing.
      simp only [Prod.mk.injEq] at ran
      obtain ⟨rfl, rfl, _⟩ := ran
      exact ⟨[], channel, rfl, rfl, Nat.zero_le _, by simp, by simp⟩
    · -- The first round leads to the vector, the offset and the channel of the others.
      rename_i layer folded between first
      obtain ⟨round, rfl, rfl, rfl, rfl, rfl, rfl⟩ := exists_round_of_commitLayer first
      simp only [Prod.mk.injEq] at ran
      obtain ⟨finished, rfl, rfl⟩ := ran
      obtain ⟨rounds, last, linked, layers, within, complete, reached⟩ := ih (Prod.ext finished rfl)
      refine ⟨round :: rounds, last, ⟨rfl, rfl, rfl, linked⟩, congrArg (round.layer :: ·) layers,
        Nat.succ_le_succ within, ?_, reached⟩
      rw [complete, List.length_cons, Nat.add_right_cancel_iff]

namespace Linked

variable {offset : Element field} {values : Array (Element field)}
  {channel after : Channel other others} {rounds : List (Round options hasher other others)}

/-- The first round starts from the vector given. -/
theorem values_zero (linked : Linked offset values channel rounds after) (inside : 0 < rounds.length) :
    rounds[0].values = values := by
  cases rounds with
  | nil => simp at inside
  | cons round rest => exact linked.2.1

/-- Every other round starts from the fold of the one before. -/
theorem values_succ (linked : Linked offset values channel rounds after) {index : Nat}
    (inside : index + 1 < rounds.length) : rounds[index + 1].values = rounds[index].folded := by
  -- The rounds behind the first one start from its fold.
  induction rounds generalizing offset values channel index with
  | nil => simp at inside
  | cons round rest ih =>
    obtain ⟨_, _, _, tail⟩ := linked
    cases index with
    | zero => exact tail.values_zero (Nat.lt_of_succ_lt_succ inside)
    | succ index => exact ih tail (Nat.lt_of_succ_lt_succ inside)

/-- The offset is raised to the factor in every round. -/
theorem offset_eq (linked : Linked offset values channel rounds after) {index : Nat}
    (inside : index < rounds.length) :
    rounds[index].offset = offset ^ options.foldingFactor ^ index := by
  -- The induction is over all starting offsets, since the later rounds start from a power.
  induction rounds generalizing offset values channel index with
  | nil => simp at inside
  | cons round rest ih =>
    obtain ⟨start, _, _, tail⟩ := linked
    cases index with
    | zero => exact start.trans (pow_one offset).symm
    | succ index =>
      -- The first round's factor is one more in the exponent.
      refine (ih tail (Nat.lt_of_succ_lt_succ inside)).trans ?_
      rw [← pow_mul, ← pow_succ']

/-- The number of values is divided by the factor in every round. -/
theorem size_values (linked : Linked offset values channel rounds after) {index : Nat}
    (inside : index < rounds.length) :
    rounds[index].values.size = values.size / options.foldingFactor ^ index := by
  -- Dividing twice is dividing by the product.
  induction index with
  | zero => rw [linked.values_zero inside, pow_zero, Nat.div_one]
  | succ index ih =>
    rw [linked.values_succ inside, Round.size_folded, ih (Nat.lt_of_succ_lt inside),
      Nat.div_div_eq_div_mul, ← pow_succ]

/-- Every round leaves as many values as it has rows. -/
theorem size_folded (linked : Linked offset values channel rounds after) {index : Nat}
    (inside : index < rounds.length) :
    rounds[index].folded.size = values.size / options.foldingFactor ^ (index + 1) := by
  rw [Round.size_folded, linked.size_values inside, Nat.div_div_eq_div_mul, ← pow_succ]

/-- Every round leaves at least one value. -/
theorem room (linked : Linked offset values channel rounds after) {index : Nat}
    (inside : index < rounds.length) : values.size / options.foldingFactor ^ (index + 1) ≠ 0 := by
  -- A tree has a leaf, so the round has a row.
  rw [← linked.size_folded inside, size_projectRows rounds[index].projected]
  exact rounds[index].height_table_pos.ne'

/-- The channel absorbs the roots of all rounds in order. -/
theorem commitments_eq (linked : Linked offset values channel rounds after) :
    after.commitments = channel.commitments ++ rounds.map fun round => round.tree.root := by
  -- The later rounds absorb behind the first one's root, so its channel is left open.
  induction rounds generalizing offset values channel with
  | nil => simp [show channel = after from linked]
  | cons round rest ih =>
    obtain ⟨_, _, rfl, tail⟩ := linked
    -- Drawing a challenge absorbs nothing.
    have absorbed : round.after.commitments = round.before.commitments ++ [round.tree.root] :=
      round.after_eq ▸ (round.before.commit round.tree.root).drawChallenge_keeps.2.1
    rw [ih tail, absorbed, List.append_assoc]
    rfl

/-- Every challenge is the one that comes after the roots up to its own round, whatever has been drawn
for the rounds before. -/
theorem challengeAfter_eq {replayed : Channel other others}
    (linked : Linked offset values channel rounds after) (behind : replayed.Behind channel)
    {index : Nat} (inside : index < rounds.length) :
    replayed.challengeAfter ((rounds.map fun round => round.tree.root).take (index + 1))
      = .ok rounds[index].challenge := by
  -- The replay may stand anywhere that has seen the same roots, or the induction would not carry on.
  induction rounds generalizing offset values channel replayed index with
  | nil => simp at inside
  | cons round rest ih =>
    obtain ⟨_, _, rfl, tail⟩ := linked
    cases index with
    | zero => exact behind.challenge_eq (congrArg Prod.fst round.drawn)
    | succ index =>
      -- The replay absorbs the round's root without drawing, and stays behind the channel.
      have next : (replayed.commit round.tree.root).Behind round.after :=
        round.after_eq ▸ (behind.commit round.tree.root).drawChallenge
      exact ih tail next (Nat.lt_of_succ_lt_succ inside)

end Linked

end Proximity
