import Mathlib
import Proximity.Proofs.Prover.Chain

/-! What a prover holds between its operations: nothing, or the layers of the build that has stored them.
A build that is refused in a later round keeps the layers of the rounds before, and they are opened as if
they were all. -/

namespace Proximity

namespace Prover

variable {field : PrimeField} {hasher : Hasher}

/-- A prover that nothing has been committed with. -/
def fresh (options : Options field) (hasher : Hasher) : Prover field where
  options := options
  hasher := hasher

/-- One use of a prover. -/
inductive Operation where
  | build {other : PrimeField} {others : Hasher} (channel : Channel other others)
      (evaluations : Evaluations)
  | prove (positions : List Int)
  | query (index : Int) (positions : List Int) (width : Int)
  | reset

/-- What a use leaves of the prover, whether it is refused or not. -/
def operate (prover : Prover field) : Operation → Prover field
  | .build channel evaluations => (prover.build channel evaluations).2.1
  | .prove positions => (prover.prove positions).2
  -- A layer that is queried stays as it is.
  | .query _ _ _ => prover
  | .reset => prover.reset

/-- The prover after some uses. -/
def run (prover : Prover field) (operations : List Operation) : Prover field :=
  operations.foldl operate prover

/-- After some uses, the layers that are held are the ones a build among them has left of a vector of some
size: it started without layers, and ended with an outcome. -/
def StoredBy (initial : Prover field) (operations : List Operation) (size : Nat)
    (outcome : Except Fault Unit) : Prop :=
  ∃ (before rest : List Operation) (other : PrimeField) (others : Hasher)
      (channel after : Channel other others) (evaluations : Evaluations)
      (values : Array (Element field)),
    operations = before ++ .build channel evaluations :: rest ∧
      (initial.run before).layers = [] ∧ evaluations.Forms values ∧ values.size = size ∧
      (initial.run before).build channel evaluations = (outcome, initial.run operations, after)

/-- Everything a use can leave: no layers, the layers held before, or those that a build without layers
stores. -/
theorem operate_cases (prover : Prover field) (operation : Operation) :
    (prover.operate operation).layers = [] ∨ prover.operate operation = prover ∨
      ∃ (other : PrimeField) (others : Hasher) (channel after : Channel other others)
          (evaluations : Evaluations) (outcome : Except Fault Unit),
        operation = .build channel evaluations ∧ prover.layers = [] ∧
          prover.build channel evaluations = (outcome, prover.operate operation, after) := by
  cases operation with
  | build channel evaluations =>
    obtain ⟨outcome, built, after, ran⟩ : ∃ outcome built after,
        prover.build channel evaluations = (outcome, built, after) := ⟨_, _, _, rfl⟩
    have left : prover.operate (.build channel evaluations) = built := by rw [operate, ran]
    rw [left]
    rcases build_cases ran with ⟨_, _, _, same, _⟩ | ⟨_, _, accepted, _, _⟩
    · -- Evaluations that are not accepted leave the prover as it is.
      exact .inr (.inl same)
    · -- Layers that have not been opened would have been in the way.
      exact .inr (.inr ⟨_, _, channel, after, evaluations, outcome, rfl,
        (accept_eq_ok_iff.mp accepted).1, ran⟩)
  | prove positions =>
    -- Layers are dropped once they have been opened, and kept if they cannot be.
    simp only [operate, prove]
    split
    · -- Positions that are answered end in a prover without layers.
      exact .inl rfl
    · -- Otherwise the layers stay for another query.
      exact .inr (.inl rfl)
  | query index positions width => exact .inr (.inl rfl)
  | reset => exact .inl rfl

/-- A use changes nothing but the layers. -/
theorem operate_keeps (prover : Prover field) (operation : Operation) :
    ∃ layers, prover.operate operation = { prover with layers } := by
  cases operation with
  | build channel evaluations =>
    obtain ⟨outcome, built, after, ran⟩ : ∃ outcome built after,
        prover.build channel evaluations = (outcome, built, after) := ⟨_, _, _, rfl⟩
    rw [operate, ran]
    -- A build stores its layers in the prover it was asked of.
    rcases build_cases ran with ⟨_, _, _, rfl, _⟩ | ⟨_, layers, _, rfl, _⟩
    · exact ⟨built.layers, rfl⟩
    · exact ⟨layers, rfl⟩
  | prove positions =>
    -- Answered or not, only the layers are touched.
    simp only [operate, prove]
    split
    · exact ⟨[], rfl⟩
    · exact ⟨prover.layers, rfl⟩
  | query index positions width => exact ⟨prover.layers, rfl⟩
  | reset => exact ⟨[], rfl⟩

/-- One more use comes after the others. -/
theorem run_concat (prover : Prover field) (operations : List Operation) (operation : Operation) :
    prover.run (operations ++ [operation]) = (prover.run operations).operate operation := by
  rw [run, List.foldl_append]
  rfl

/-- Uses change nothing but the layers. -/
theorem run_keeps (prover : Prover field) (operations : List Operation) :
    ∃ layers, prover.run operations = { prover with layers } := by
  -- The last use is split off, as it is the one that decides on the layers.
  induction operations using List.reverseRecOn with
  | nil => exact ⟨prover.layers, rfl⟩
  | append_singleton operations operation ih =>
    obtain ⟨between, kept⟩ := ih
    -- What came before has kept all but the layers, and so does the last use.
    rw [run_concat, kept]
    exact operate_keeps { prover with layers := between } operation

/-- Layers that are held after some uses have been stored by one of them. -/
theorem idle_or_storedBy (options : Options field) (hasher : Hasher) (operations : List Operation) :
    ((fresh options hasher).run operations).layers = [] ∨
      ∃ size outcome, (fresh options hasher).StoredBy operations size outcome := by
  -- Again the last use comes apart from those before it.
  induction operations using List.reverseRecOn with
  | nil => exact .inl rfl
  | append_singleton operations operation ih =>
    rw [run_concat]
    rcases operate_cases ((fresh options hasher).run operations) operation with
      idle | same | ⟨other, others, channel, after, evaluations, outcome, rfl, idle, ran⟩
    · -- Layers that have been dropped are none.
      exact .inl idle
    · -- What was held before is held still.
      rw [same]
      refine ih.imp_right fun stored => ?_
      obtain ⟨size, outcome, before, rest, other, others, channel, after, evaluations, values, rfl,
        idle, forms, sized, ran⟩ := stored
      refine ⟨size, outcome, before, rest ++ [operation], other, others, channel, after, evaluations,
        values, by simp, idle, forms, sized, ?_⟩
      rw [run_concat, same, ran]
    · -- A build that stores layers has accepted its evaluations.
      by_cases nothing : (((fresh options hasher).run operations).operate
        (.build channel evaluations)).layers = []
      · -- A build that is refused in its first round stores none.
        exact .inl nothing
      · obtain ⟨values, _, _, forms, _⟩ := exists_linked_of_build ran idle nothing
        refine .inr ⟨values.size, outcome, operations, [], other, others, channel, after, evaluations,
          values, rfl, idle, forms, rfl, ?_⟩
        rw [run_concat, ran]

/-- A prover holds nothing, or the first layers over the vector of the build that has stored them. They
are complete exactly if that build was not refused. Either way every list of positions in the domain is
answered, with a remainder that is within the limit exactly if the layers are complete. -/
theorem run_holds_chain (options : Options field) (hasher : Hasher) (operations : List Operation) :
    ((fresh options hasher).run operations).layers = [] ∨
      ∃ size outcome, (fresh options hasher).StoredBy operations size outcome ∧
        ((fresh options hasher).run operations).Begun size ∧
        (((fresh options hasher).run operations).Complete size ↔ outcome = .ok ()) ∧
        ∀ positions : List Int,
          (positions ≠ [] → (∀ position ∈ positions, 0 ≤ position ∧ position < size) →
            ∃ proof, (((fresh options hasher).run operations).prove positions).1 = .ok proof) ∧
          ∀ proof, (((fresh options hasher).run operations).prove positions).1 = .ok proof →
            ∃ remainder, proof.remainder = some remainder ∧
              (remainder.size ≤ options.maxRemainderSize ↔ outcome = .ok ()) := by
  by_cases held : ((fresh options hasher).run operations).layers = []
  · -- A prover without layers holds nothing to speak of.
    exact .inl held
  · right
    obtain ⟨size, outcome, stored⟩ :=
      (idle_or_storedBy options hasher operations).resolve_left held
    refine ⟨size, outcome, stored, ?_⟩
    obtain ⟨before, _, _, _, channel, after, evaluations, values, _, idle, forms, rfl, ran⟩ := stored
    obtain ⟨same, between, rounds, again, some, linked, built, begun, complete⟩ :=
      exists_linked_of_build ran idle held
    -- The vector is the one that the evaluations form.
    obtain rfl := forms.unique again
    refine ⟨begun, complete, fun positions => ⟨fun nonempty inside => ?_, fun proof proved => ?_⟩⟩
    · -- The rounds that are there are opened, however many should have followed.
      obtain ⟨proof, proved, _⟩ := linked.prove_eq_ok some nonempty inside
      exact ⟨proof, by rw [built, proved]⟩
    · -- The remainder shown is the last layer that is held.
      obtain ⟨remainder, sent, fits⟩ := begun.remainder_le_iff proved
      -- The limit is that of the options the prover was made with.
      obtain ⟨layers, kept⟩ := run_keeps (fresh options hasher) operations
      have limit : ((fresh options hasher).run operations).options = options := by rw [kept]; rfl
      exact ⟨remainder, sent, by rw [← complete, ← fits, limit]⟩

/-- The known field of order 31. -/
def thirtyOne : PrimeField :=
  PrimeField.catalogue[6]

/-- A channel over a field with elements that are none of the field of order 17. -/
def wideChannel : Channel thirtyOne Hasher.blake2s :=
  .ofSeed thirtyOne Hasher.blake2s [2]

/-- Sixteen values of the constant one. -/
def sixteenOnes : Evaluations :=
  .plain (.list (List.replicate 16 (.integer 1)))

/-- The first challenge from this channel can be used, and the second one is outside the field. -/
theorem build_wideChannel :
    ((fresh foursProver.options Hasher.blake2s).build wideChannel sixteenOnes).1
        = .error .outsideField ∧
      ((fresh foursProver.options Hasher.blake2s).build wideChannel sixteenOnes).2.1.domainSize
        = 16 := by
  decide +kernel

/-- A build that is refused in its second round leaves the layer of the first one, which is then sent as a
remainder beyond the limit. -/
theorem refused_build_opened :
    ((fresh foursProver.options Hasher.blake2s).build wideChannel sixteenOnes).1
        = .error .outsideField ∧
      ((fresh foursProver.options Hasher.blake2s).run [.build wideChannel sixteenOnes]).layers ≠ [] ∧
      (∀ size, ¬((fresh foursProver.options Hasher.blake2s).run
        [.build wideChannel sixteenOnes]).Complete size) ∧
      ∃ proof remainder,
        (((fresh foursProver.options Hasher.blake2s).run
          [.build wideChannel sixteenOnes]).prove [0]).1 = .ok proof ∧
        proof.remainder = some remainder ∧ foursProver.options.maxRemainderSize < remainder.size := by
  -- The build stops in its second round, over sixteen points.
  obtain ⟨refused, domain⟩ := build_wideChannel
  rcases ran : (fresh foursProver.options Hasher.blake2s).build wideChannel sixteenOnes with
    ⟨outcome, built, after⟩
  have left : (fresh foursProver.options Hasher.blake2s).run [.build wideChannel sixteenOnes]
      = built := by
    rw [run, List.foldl_cons, List.foldl_nil, operate, ran]
  rw [ran] at refused domain
  rw [left]
  obtain rfl : outcome = .error .outsideField := refused
  -- One layer is left, as there is a domain.
  have held : built.layers ≠ [] := by
    intro idle
    simp [domainSize, idle] at domain
  obtain ⟨values, _, rounds, _, some, linked, same, begun, complete⟩ :=
    exists_linked_of_build ran rfl held
  have sixteen : values.size = 16 := by
    rw [← domain, same]
    exact (linked.domainSize_eq some).symm
  -- The layers are not complete, whatever domain they are taken for.
  have incomplete : ∀ size, ¬built.Complete size := by
    intro size whole
    obtain rfl : size = values.size := by rw [← whole.domainSize_eq, domain, sixteen]
    simpa using complete.mp whole
  -- Position zero is inside, so it is answered with that layer.
  have inside : ∀ position ∈ ([0] : List Int), 0 ≤ position ∧ position < values.size := by
    simp [sixteen]
  obtain ⟨proof, proved, _⟩ := linked.prove_eq_ok some (by simp) inside
  have sentBy : (built.prove [0]).1 = .ok proof := by rw [same, proved]
  obtain ⟨remainder, sent, fits⟩ := begun.remainder_le_iff sentBy
  refine ⟨rfl, held, incomplete, proof, remainder, sentBy, sent, ?_⟩
  -- The build has not touched the options.
  have limit : built.options = foursProver.options := by
    rw [same]
    rfl
  -- A remainder within the limit would have made the layers complete.
  rw [← limit]
  exact Nat.not_le.mp fun within => incomplete _ (fits.mp within)

end Prover

end Proximity
