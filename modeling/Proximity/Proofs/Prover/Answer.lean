import Mathlib
import Proximity.Proofs.Prover.Lifecycle

/-! What a query leads to in every state a prover can be in: three checks may refuse it, and no step behind
them does. -/

namespace Proximity

namespace Prover

variable {field : PrimeField} {hasher : Hasher}

/-- A prover in a state that some uses lead to. -/
def Reachable (prover : Prover field) : Prop :=
  ∃ (options : Options field) (hasher : Hasher) (operations : List Operation),
    prover = (fresh options hasher).run operations

/-- Whatever layers a prover holds after some uses, they are those of rounds that lead to one another. -/
theorem exists_linked_of_run {options : Options field} {operations : List Operation}
    (held : ((fresh options hasher).run operations).layers ≠ []) :
    ∃ (before : Prover field) (other : PrimeField) (others : Hasher) (channel after : Channel other others)
        (values : Array (Element field)) (rounds : List (Round before.options before.hasher other others)),
      0 < rounds.length ∧ Linked before.options.domainOffset values channel rounds after ∧
        (fresh options hasher).run operations = { before with layers := rounds.map Round.layer } := by
  -- Some build has stored the layers, and whatever came after it has kept them.
  obtain ⟨_, _, before, _, other, others, channel, _, _, _, _, idle, _, _, ran⟩ :=
    (idle_or_storedBy options hasher operations).resolve_left held
  obtain ⟨values, after, rounds, _, some, linked, built, _⟩ := exists_linked_of_build ran idle held
  exact ⟨_, other, others, channel, after, values, rounds, some, linked, built⟩

/-- The first domain has a point for every value of the first layer. -/
theorem domainSize_eq_of_layers_eq {prover : Prover field} {first : Layer field prover.hasher}
    {rest : List (Layer field prover.hasher)} (held : prover.layers = first :: rest) :
    prover.domainSize = first.evaluations.size := by
  -- The domain is as large as the layer at the front.
  simp only [domainSize, held, List.head?_cons]

/-- Without a layer there is no first domain. -/
theorem exists_layers_eq {prover : Prover field} (some : 0 < prover.domainSize) :
    ∃ first rest, prover.layers = first :: rest := by
  -- With no layer at all the domain would have no points.
  refine List.exists_cons_of_ne_nil fun idle => ?_
  simp [domainSize, idle] at some

/-- Everything that can refuse a query before a layer is opened, in the order of the checks. -/
theorem prove_cases (prover : Prover field) (positions : List Int) :
    (prover.layers = [] ∧ prover.prove positions = (.error .nothingCommitted, prover)) ∨
      (prover.layers ≠ [] ∧ positions = [] ∧
        prover.prove positions = (.error .noQueryPosition, prover)) ∨
      (prover.layers ≠ [] ∧ outside positions prover.domainSize ≠ [] ∧ prover.prove positions
        = (.error (.positionsOutOfRange (outside positions prover.domainSize) prover.domainSize), prover)) ∨
      prover.layers ≠ [] ∧ positions ≠ [] ∧ outside positions prover.domainSize = [] := by
  -- The checks are made in this order, each for want of the one before it.
  by_cases idle : prover.layers = []
  · -- The last layer is looked up first, and there is none.
    refine .inl ⟨idle, ?_⟩
    have none : prover.layers.getLast? = none := by rw [idle, List.getLast?_nil]
    simp only [prove, answer, none]
  · obtain ⟨last, found⟩ : ∃ last, prover.layers.getLast? = some last :=
      ⟨_, List.getLast?_eq_getLast_of_ne_nil idle⟩
    by_cases empty : positions = []
    · -- A query without positions comes next.
      refine .inr (.inl ⟨idle, empty, ?_⟩)
      simp only [prove, answer, found, empty, if_true, throw_eq_error, error_bind]
    · by_cases bad : outside positions prover.domainSize = []
      · -- Nothing is left that is checked before the layers are opened.
        exact .inr (.inr (.inr ⟨idle, empty, bad⟩))
      · -- The positions listed are those that the check has filtered out.
        refine .inr (.inr (.inl ⟨idle, bad, ?_⟩))
        have listed : positions.filter (fun position =>
          position < 0 || (prover.domainSize : Int) ≤ position) ≠ [] := bad
        simp only [prove, answer, found, empty, listed, ne_eq, not_false_eq_true, if_true, if_false,
          throw_eq_error, error_bind, pure_eq_ok, outside]

/-- Layers that some uses have left answer every list of positions in the first domain. -/
theorem Reachable.exists_proof {prover : Prover field} (reachable : prover.Reachable)
    (held : prover.layers ≠ []) {positions : List Int} (nonempty : positions ≠ [])
    (inside : outside positions prover.domainSize = []) :
    ∃ proof, prover.prove positions = (.ok proof, prover.reset) ∧
      proof.layers.length + 1 = prover.layers.length := by
  obtain ⟨options, hasher, operations, rfl⟩ := reachable
  -- The rounds that have left the layers may be fewer than were asked for, but they lead to one another.
  obtain ⟨before, _, _, _, _, values, rounds, some, linked, left⟩ := exists_linked_of_run held
  rw [left, linked.domainSize_eq some, outside_eq_nil_iff] at inside
  obtain ⟨proof, proved, answers⟩ := linked.prove_eq_ok some nonempty inside
  rw [left]
  exact ⟨proof, proved, answers.length_layers.trans (List.length_map _).symm⟩

/-- A query is refused because no layers are held, because it names no position, or because it names some
outside the first layer, which are then listed. Otherwise it goes through, however the layers came about:
no fold, batched proof, row or remainder is refused behind these checks. A refusal changes nothing; a proof
opens all layers but the last, and leaves the prover idle. No channel takes part: a query is given none and
hands none back. -/
theorem query_outcome {prover : Prover field} (reachable : prover.Reachable) (positions : List Int) :
    ((prover.prove positions).1 = .error .nothingCommitted ↔ prover.layers = []) ∧
      (∀ first rest, prover.layers = first :: rest →
        (∀ fault, (prover.prove positions).1 = .error fault ↔
          positions = [] ∧ fault = .noQueryPosition ∨
            outside positions first.evaluations.size ≠ [] ∧ fault = .positionsOutOfRange
              (outside positions first.evaluations.size) first.evaluations.size) ∧
        ((∃ proof, prover.prove positions = (.ok proof, prover.reset) ∧
            proof.layers.length = rest.length) ↔
          positions ≠ [] ∧
            ∀ position ∈ positions, 0 ≤ position ∧ position < first.evaluations.size)) ∧
      ∀ fault, (prover.prove positions).1 = .error fault → (prover.prove positions).2 = prover := by
  -- Without positions none of them is outside, so the two refusals exclude each other.
  have none : ∀ size, positions = [] → outside positions size = [] := by
    rintro size rfl
    rfl
  rcases prove_cases prover positions with
    ⟨idle, ran⟩ | ⟨held, empty, ran⟩ | ⟨held, bad, ran⟩ | ⟨held, nonempty, inside⟩
  · -- Without layers every query has one outcome.
    rw [ran]
    exact ⟨iff_of_true rfl idle, fun _ _ some => by simp [idle] at some, fun _ _ => rfl⟩
  · -- An empty query is refused as such, as nothing in it is outside.
    rw [ran]
    refine ⟨by simp [held], fun first rest some => ?_, fun _ _ => rfl⟩
    simp [empty, outside, eq_comm]
  · -- A query with positions outside is not empty, so they are what it is refused for.
    rw [ran]
    refine ⟨by simp [held], fun first rest some => ?_, fun _ _ => rfl⟩
    have listed : positions ≠ [] := fun empty => bad (none _ empty)
    rw [domainSize_eq_of_layers_eq some] at bad ⊢
    refine ⟨fun fault => ?_, iff_of_false (by simp) fun inside => bad (outside_eq_nil_iff.mpr inside.2)⟩
    simp [listed, bad, eq_comm]
  · -- All other queries are answered, and so are not refused at all.
    obtain ⟨proof, proved, length⟩ := reachable.exists_proof held nonempty inside
    rw [proved]
    refine ⟨by simp [held], fun first rest some => ?_, by simp⟩
    rw [domainSize_eq_of_layers_eq some] at inside
    rw [some, List.length_cons, Nat.add_right_cancel_iff] at length
    refine ⟨fun fault => ?_, iff_of_true ⟨proof, rfl, length⟩
      ⟨nonempty, outside_eq_nil_iff.mp inside⟩⟩
    simp [nonempty, inside]

/-- A prover whose build was refused in its second round. -/
def refusedProver : Prover seventeen :=
  (fresh foursProver.options Hasher.blake2s).run [.build wideChannel sixteenOnes]

/-- The one layer left by the round before the refusal is sent in answer to positions among its sixteen
points, and positions outside them are listed. -/
theorem query_outcome_refused_build :
    refusedProver.Reachable ∧
      (∃ proof, refusedProver.prove [13, 2, 13] = (.ok proof, refusedProver.reset)) ∧
      (refusedProver.prove [16, 3, -1]).1 = .error (.positionsOutOfRange [16, -1] 16) := by
  -- The build has left the layer of its first round, over sixteen points.
  have reachable : refusedProver.Reachable := ⟨_, _, _, rfl⟩
  have left : refusedProver
      = ((fresh foursProver.options Hasher.blake2s).build wideChannel sixteenOnes).2.1 := by
    rw [refusedProver, run, List.foldl_cons, List.foldl_nil, operate]
  have size : refusedProver.domainSize = 16 := by
    rw [left]
    exact build_wideChannel.2
  obtain ⟨first, rest, held⟩ := exists_layers_eq (by rw [size]; decide)
  rw [domainSize_eq_of_layers_eq held] at size
  obtain ⟨-, within, -⟩ := query_outcome reachable [13, 2, 13]
  obtain ⟨-, beyond, -⟩ := query_outcome reachable [16, 3, -1]
  -- The first query keeps to these points.
  have inside : ∀ position ∈ ([13, 2, 13] : List Int),
      0 ≤ position ∧ position < first.evaluations.size := by
    rw [size]
    decide
  obtain ⟨proof, proved, _⟩ := (within first rest held).2.mpr ⟨by decide, inside⟩
  -- The second one does not, and the positions outside are computed.
  refine ⟨reachable, ⟨proof, proved⟩, ((beyond first rest held).1 _).mpr (.inr ?_)⟩
  rw [size]
  decide

end Prover

end Proximity
