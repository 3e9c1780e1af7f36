import Mathlib
import Proximity.Proofs.Prover.Query

/-! The layers that a commit phase stores, whether it goes through or is refused on its way: each of them
commits to its own rows, and the last one fits the remainder exactly if none is missing. -/

namespace Proximity

variable {field other : PrimeField} {hasher others : Hasher} {prover built : Prover field}
  {channel after : Channel other others} {evaluations : Evaluations}
  {outcome : Except Fault Unit} {size : Nat}

/-- A layer over some evaluations: its leaves are the digests of its own rows, one for each of them. -/
structure Layer.Commits (layer : Layer field hasher) (factor size : Nat) : Prop where
  size_evaluations : layer.evaluations.size = size
  leafCount_tree : layer.tree.leafCount = size / factor
  leaves_tree : ∃ table, layer.rows factor = .ok table ∧ hashRows hasher table = .ok layer.tree.leaves

/-- What a round stores commits to the round's vector. -/
theorem Round.commits_layer {options : Options field} (round : Round options hasher other others) :
    round.layer.Commits options.foldingFactor round.values.size where
  size_evaluations := by
    -- The cells of the table are as many as the values of the vector.
    rw [← height_mul_width_of_splitRows round.splitRows_eq, ← round.width_table]
    exact round.table.size_cells
  leafCount_tree := round.leafCount_tree.trans round.height_table
  leaves_tree := ⟨round.table, round.rows_layer, round.hashRows_eq⟩

namespace Prover

/-- Each of the layers held commits to as many values as the folds before it leave of a domain. -/
def CommitsOver (prover : Prover field) (size : Nat) : Prop :=
  ∀ index (inside : index < prover.layers.length),
    prover.layers[index].Commits prover.options.foldingFactor
      (size / prover.options.foldingFactor ^ index)

/-- The layers of the first rounds over a domain of some size, or of all of them. -/
structure Begun (prover : Prover field) (size : Nat) : Prop where
  /-- The domain can be folded in every round. -/
  pow_dvd_size : prover.options.foldingFactor ^ (prover.options.numLayers size + 1) ∣ size
  length_le : prover.layers.length ≤ prover.options.numLayers size + 1
  commits : prover.CommitsOver size

/-- The layers of all rounds over a domain of some size, the last of which fits the remainder. -/
structure Complete (prover : Prover field) (size : Nat) : Prop where
  length_eq : prover.layers.length = prover.options.numLayers size + 1
  commits : prover.CommitsOver size
  last : ∃ last, prover.layers.getLast? = some last ∧
    last.evaluations.size ≤ prover.options.maxRemainderSize ∧
    prover.options.foldingFactor ∣ last.evaluations.size

namespace Begun

/-- The domain of every layer that is held can be folded once more. -/
theorem fold (begun : prover.Begun size) {index : Nat} (inside : index < prover.layers.length) :
    size / prover.options.foldingFactor ^ (index + 1) ≠ 0 ∧
      prover.options.foldingFactor ^ (index + 1) ∣ size := by
  -- No more layers are held than there are rounds to divide the domain.
  have within := begun.length_le
  refine ⟨?_, (pow_dvd_pow _ (by omega)).trans begun.pow_dvd_size⟩
  -- There is a leaf for every row that the fold leads to.
  have leaves := (begun.commits index inside).leafCount_tree
  rw [MerkleTree.leafCount_eq, Nat.div_div_eq_div_mul, ← pow_succ] at leaves
  exact leaves ▸ (Nat.two_pow_pos _).ne'

/-- The last of the layers stored is what so many folds leave of the domain. -/
theorem size_last (begun : prover.Begun size) {last : Layer field prover.hasher}
    (found : prover.layers.getLast? = some last) :
    ∃ folds, prover.layers.length = folds + 1 ∧
      last.evaluations.size = size / prover.options.foldingFactor ^ folds := by
  -- As many layers stand before the last one as there were folds.
  obtain ⟨front, stored⟩ := List.getLast?_eq_some_iff.mp found
  have length : prover.layers.length = front.length + 1 := by simp [stored]
  refine ⟨front.length, length, ?_⟩
  rw [← (begun.commits front.length (by omega)).size_evaluations]
  simp [stored]

/-- The last layer fits the remainder exactly if the layers of all rounds are there. -/
theorem last_le_iff (begun : prover.Begun size) {last : Layer field prover.hasher}
    (found : prover.layers.getLast? = some last) :
    last.evaluations.size ≤ prover.options.maxRemainderSize ↔
      prover.layers.length = prover.options.numLayers size + 1 := by
  -- Fewer folds than counted leave too many values.
  obtain ⟨folds, length, folded⟩ := begun.size_last found
  have within := begun.length_le
  rw [folded, Options.div_pow_le_maxRemainderSize_iff]
  omega

/-- Nothing but missing rounds keeps the layers from being complete. -/
theorem complete_iff (begun : prover.Begun size) :
    prover.Complete size ↔ prover.layers.length = prover.options.numLayers size + 1 := by
  -- All that completeness adds is about the last layer.
  refine ⟨Complete.length_eq, fun length => ⟨length, begun.commits, ?_⟩⟩
  obtain ⟨last, found⟩ : ∃ last, prover.layers.getLast? = some last :=
    Option.isSome_iff_exists.mp (by simp [List.getLast?_isSome, ← List.length_pos_iff_ne_nil, length])
  refine ⟨last, found, (begun.last_le_iff found).mpr length, ?_⟩
  -- The domain allows for the fold of the last round as well.
  obtain ⟨folds, counted, folded⟩ := begun.size_last found
  rw [folded]
  apply Nat.dvd_div_of_mul_dvd
  rw [← pow_succ, ← counted, length]
  exact begun.pow_dvd_size

end Begun

/-- Layers tell the domain they were built over. -/
theorem CommitsOver.domainSize_eq (commits : prover.CommitsOver size)
    (some : 0 < prover.layers.length) : prover.domainSize = size := by
  -- Nothing has been folded before the first layer.
  have first := (commits 0 some).size_evaluations
  rw [pow_zero, Nat.div_one] at first
  rw [domainSize, List.head?_eq_getElem?, List.getElem?_eq_getElem some, ← first]

/-- Complete layers tell the domain they were built over. -/
theorem Complete.domainSize_eq (complete : prover.Complete size) : prover.domainSize = size :=
  complete.commits.domainSize_eq (complete.length_eq ▸ Nat.succ_pos _)

end Prover

/-- A build either refuses the evaluations and leaves everything as it was, or goes through rounds. -/
theorem build_cases (ran : prover.build channel evaluations = (outcome, built, after)) :
    (∃ fault, prover.accept evaluations = .error fault ∧ outcome = .error fault ∧ built = prover ∧
        after = channel) ∨
      ∃ values layers, prover.accept evaluations = .ok values ∧ built = { prover with layers } ∧
        Prover.commitLayers prover.options prover.hasher (prover.options.numLayers values.size + 1)
          prover.options.domainOffset values channel = (outcome, layers, after) := by
  -- Only the rounds touch the channel, and only their layers are stored.
  unfold Prover.build at ran
  split at ran
  · -- Evaluations that are refused leave all as it was.
    rename_i fault refused
    simp only [Prod.mk.injEq] at ran
    obtain ⟨rfl, rfl, rfl⟩ := ran
    exact .inl ⟨fault, refused, rfl, rfl, rfl⟩
  · -- The rest of the build is the rounds.
    rename_i values accepted
    simp only [Prod.mk.injEq] at ran
    obtain ⟨rfl, rfl, rfl⟩ := ran
    exact .inr ⟨values, _, accepted, rfl, rfl⟩

/-- The layers of rounds that lead to one another are the first ones over the vector's domain. -/
theorem Linked.begun {values : Array (Element field)} {offset : Element field}
    {rounds : List (Round prover.options prover.hasher other others)}
    (linked : Linked offset values channel rounds after)
    (divides : prover.options.foldingFactor ^ (prover.options.numLayers values.size + 1)
      ∣ values.size)
    (within : rounds.length ≤ prover.options.numLayers values.size + 1) :
    ({ prover with layers := rounds.map Round.layer } : Prover field).Begun values.size := by
  refine ⟨divides, by simpa using within, fun index inside => ?_⟩
  -- A stored layer is that of the round at its place.
  have among : index < rounds.length := by simpa using inside
  have commits := rounds[index].commits_layer
  rw [linked.size_values among] at commits
  simpa using commits

/-- A commit phase leaves the layers of its rounds. -/
theorem CommitPhase.begun {values : Array (Element field)}
    {rounds : List (Round prover.options prover.hasher other others)}
    (phase : CommitPhase prover channel values rounds built after) : built.Begun values.size := by
  -- The rounds are as many as counted, each of them on the same vector.
  obtain rfl := phase.built_eq
  have length := phase.length_rounds
  exact phase.linked.begun (length ▸ phase.pow_dvd_size) length.le

/-- None of the rounds is missing. -/
theorem CommitPhase.complete {values : Array (Element field)}
    {rounds : List (Round prover.options prover.hasher other others)}
    (phase : CommitPhase prover channel values rounds built after) :
    built.Complete values.size := by
  -- As many layers are held as rounds went through.
  refine phase.begun.complete_iff.mpr ?_
  obtain rfl := phase.built_eq
  rw [List.length_map, phase.length_rounds]

/-- Layers that a build stores in an idle prover are those of rounds that lead to one another, and none
of them is missing exactly if the build is not refused. -/
theorem exists_linked_of_build (ran : prover.build channel evaluations = (outcome, built, after))
    (idle : prover.layers = []) (held : built.layers ≠ []) :
    ∃ (values : Array (Element field)) (between : Channel other others)
        (rounds : List (Round prover.options prover.hasher other others)),
      evaluations.Forms values ∧ 0 < rounds.length ∧
        Linked prover.options.domainOffset values channel rounds between ∧
        built = { prover with layers := rounds.map Round.layer } ∧
        built.Begun values.size ∧ (built.Complete values.size ↔ outcome = .ok ()) := by
  rcases build_cases ran with ⟨_, _, _, rfl, _⟩ | ⟨values, layers, accepted, rfl, went⟩
  · -- A build that is refused before its rounds has stored none.
    exact absurd idle held
  · -- The rounds that went through are the ones whose layers were stored.
    obtain ⟨_, listed, _, _, divides⟩ := accept_eq_ok_iff.mp accepted
    obtain ⟨rounds, between, linked, rfl, within, complete, _⟩ := exists_linked_of_commitLayers went
    have begun := linked.begun divides within
    have some : 0 < rounds.length := by simpa [List.length_pos_iff] using held
    refine ⟨values, between, rounds, vector_eq_ok_iff.mp listed, some, linked, rfl, begun, ?_⟩
    rw [begun.complete_iff, complete, List.length_map]

/-- The remainder that is sent is as long as the last layer that is held. -/
theorem remainder_of_answer {positions : List Int} {proof : Proof field}
    (answered : prover.answer positions = .ok proof) :
    ∃ last remainder, prover.layers.getLast? = some last ∧ proof.remainder = some remainder ∧
      remainder.size = last.evaluations.size := by
  -- The remainder is the last layer in natural order.
  obtain ⟨last, openings, remainder, found, _, joined, rfl⟩ := Prover.answer_cases answered
  exact ⟨last, remainder, found, rfl, size_joinRows joined⟩

/-- Whatever is sent fits the remainder exactly if no layer is missing. -/
theorem Prover.Begun.remainder_le_iff (begun : prover.Begun size) {positions : List Int}
    {proof : Proof field} (proved : (prover.prove positions).1 = .ok proof) :
    ∃ remainder, proof.remainder = some remainder ∧
      (remainder.size ≤ prover.options.maxRemainderSize ↔ prover.Complete size) := by
  -- Its length is that layer's, which tells whether rounds are missing.
  obtain ⟨last, remainder, found, sent, size⟩ := remainder_of_answer (Prover.answer_of_prove proved)
  refine ⟨remainder, sent, ?_⟩
  rw [size, begun.last_le_iff found, begun.complete_iff]

end Proximity
