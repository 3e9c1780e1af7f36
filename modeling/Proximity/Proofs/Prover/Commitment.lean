import Mathlib
import Proximity.Proofs.Field.Reading
import Proximity.Proofs.Prover.Rounds

/-! A commit phase that goes through has checked its evaluations, and holds the layers of its rounds. -/

namespace Proximity

variable {field other : PrimeField} {others : Hasher} {prover built : Prover field}
  {channel after : Channel other others} {evaluations : Evaluations}
  {values : Array (Element field)}

/-- The vector of elements that evaluations stand for. -/
def Evaluations.vector (evaluations : Evaluations) (field : PrimeField) :
    Except Fault (Array (Element field)) := do
  let tensor ← evaluations.read field
  tensor.vector

/-- Evaluations that form a vector: its elements in one dimension, or the flat list of their least
residues. -/
inductive Evaluations.Forms (values : Array (Element field)) : Evaluations → Prop
  | plain : Forms values (.plain (.list (values.toList.map fun element => .integer element.value)))
  | elements (tensor : Tensor field) (shape : tensor.shape = [values.size])
      (cells : tensor.cells = values) : Forms values (.elements tensor)

/-- A tensor is a vector exactly if all of its cells lie in one dimension. -/
theorem tensorVector_eq_ok_iff {tensor : Tensor field} :
    tensor.vector = .ok values ↔ tensor.shape = [values.size] ∧ tensor.cells = values := by
  have size := tensor.size_cells
  unfold Tensor.vector
  split
  · -- The one dimension is as long as there are cells.
    rename_i length shape
    rw [shape, Nested.volume, Nested.volume, Nat.mul_one] at size
    simp only [Except.ok.injEq, shape, List.cons.injEq, and_true]
    constructor
    · intro same
      exact ⟨same ▸ size.symm, same⟩
    · intro forms
      exact forms.2
  · -- Any other number of dimensions is refused.
    rename_i many
    simp only [reduceCtorEq, false_iff]
    exact fun forms => many _ forms.1

/-- Evaluations are read as a vector exactly if they form it. -/
theorem vector_eq_ok_iff : evaluations.vector field = .ok values ↔ evaluations.Forms values := by
  unfold Evaluations.vector
  -- Reading comes first, and then the check of the dimensions.
  simp only [bind_eq_ok_iff, tensorVector_eq_ok_iff]
  cases evaluations with
  | plain nested =>
    -- Integers are read in the field itself.
    rw [Evaluations.read, exists_readTensor_vector_iff]
    constructor
    · intro flat
      exact flat ▸ .plain
    · intro forms
      cases forms with
      | plain => rfl
  | @elements given tensor =>
    constructor
    · -- Elements are taken as they are if they belong to the field.
      intro vector
      obtain ⟨taken, read, shape, cells⟩ := vector
      simp only [Evaluations.read] at read
      split at read
      · rename_i same
        subst same
        obtain rfl : tensor = taken := Except.ok.inj read
        exact .elements tensor shape cells
      · -- Elements of another field are refused.
        simp at read
    · -- A tensor of the field's own elements is read without a change.
      intro forms
      cases forms with
      | elements tensor shape cells => exact ⟨tensor, dif_pos rfl, shape, cells⟩

/-- Evaluations form one vector at most. -/
theorem Evaluations.Forms.unique {same : Array (Element field)} (forms : evaluations.Forms values)
    (again : evaluations.Forms same) : values = same :=
  -- Both are what the evaluations are read as, which is one outcome.
  Except.ok.inj ((vector_eq_ok_iff.mpr forms).symm.trans (vector_eq_ok_iff.mpr again))

/-- Evaluations are accepted by an idle prover exactly if they form a vector over a domain that exists,
and that can be folded as often as needed. -/
theorem accept_eq_ok_iff :
    prover.accept evaluations = .ok values ↔
      prover.layers = [] ∧ evaluations.vector field = .ok values ∧ values.size.isPowerOfTwo ∧
        (∃ root, rootOfUnity field values.size = .ok root) ∧
        prover.options.foldingFactor ^ (prover.options.numLayers values.size + 1) ∣ values.size := by
  unfold Prover.accept Evaluations.vector
  constructor
  · -- Every check that fails ends in a refusal.
    intro accepted
    split at accepted
    · -- A prover that holds layers refuses everything.
      simp at accepted
    · rename_i idle
      obtain ⟨tensor, read, accepted⟩ := bind_eq_ok_iff.mp accepted
      obtain ⟨vector, listed, accepted⟩ := bind_eq_ok_iff.mp accepted
      dsimp only at accepted
      split at accepted
      · -- The number of values is checked next.
        simp at accepted
      · rename_i power
        obtain ⟨root, rooted, accepted⟩ := bind_eq_ok_iff.mp accepted
        split at accepted
        · -- The last check is that all rounds divide that number.
          simp at accepted
        · rename_i folds
          simp only [pure_eq_ok, Except.ok.injEq] at accepted
          subst accepted
          -- What has been passed is what is claimed, one check after the other.
          exact ⟨not_not.mp idle, bind_eq_ok_iff.mpr ⟨tensor, read, listed⟩, not_not.mp power,
            ⟨root, rooted⟩, Nat.dvd_of_mod_eq_zero (not_not.mp folds)⟩
  · intro checked
    -- With all of this given, each check is passed in turn.
    obtain ⟨idle, listed, power, ⟨root, rooted⟩, folds⟩ := checked
    obtain ⟨tensor, read, cells⟩ := bind_eq_ok_iff.mp listed
    have divides : values.size % Nat.pow prover.options.foldingFactor
        (prover.options.numLayers values.size + 1) = 0 := Nat.mod_eq_zero_of_dvd folds
    simp only [idle, ne_eq, not_true_eq_false, if_false, read, cells, ok_bind, power, rooted, divides,
      pure_eq_ok]

/-- A commit phase on a vector: the rounds it went through, and the prover and the channel it left. -/
structure CommitPhase (prover : Prover field) (channel : Channel other others)
    (values : Array (Element field)) (rounds : List (Round prover.options prover.hasher other others))
    (built : Prover field) (after : Channel other others) : Prop where
  rooted : ∃ root, rootOfUnity field values.size = .ok root
  linked : Linked prover.options.domainOffset values channel rounds after
  length_rounds : rounds.length = prover.options.numLayers values.size + 1
  pow_dvd_size : prover.options.foldingFactor ^ rounds.length ∣ values.size
  built_eq : built = { prover with layers := rounds.map Round.layer }

/-- A build that succeeds is a commit phase on the vector it was given. -/
theorem exists_commitPhase_of_build
    (ran : prover.build channel evaluations = (.ok (), built, after)) :
    ∃ values rounds, evaluations.vector field = .ok values ∧
      CommitPhase prover channel values rounds built after := by
  -- Nothing is committed to before the evaluations have been accepted.
  unfold Prover.build at ran
  split at ran
  · -- Refused evaluations are no success.
    simp at ran
  · rename_i values accepted
    obtain ⟨_, listed, _, rooted, divides⟩ := accept_eq_ok_iff.mp accepted
    simp only [Prod.mk.injEq] at ran
    obtain ⟨finished, rfl, rfl⟩ := ran
    -- The rounds that ran are those of a run that did not stop.
    obtain ⟨rounds, _, linked, layers, _, complete, reached⟩ :=
      exists_linked_of_commitLayers (Prod.ext finished rfl)
    obtain rfl := reached rfl
    -- A run that did not stop has gone through all rounds it was asked for.
    have length := complete.mp rfl
    exact ⟨values, rounds, listed, rooted, linked, length, length ▸ divides,
      congrArg (fun layers => { prover with layers }) layers⟩

/-- The vector of a build that succeeds is the one that its evaluations form. -/
theorem Evaluations.Forms.exists_commitPhase (forms : evaluations.Forms values)
    (ran : prover.build channel evaluations = (.ok (), built, after)) :
    ∃ rounds, CommitPhase prover channel values rounds built after := by
  obtain ⟨found, rounds, listed, phase⟩ := exists_commitPhase_of_build ran
  -- Both vectors are read from the same evaluations.
  obtain rfl := forms.unique (vector_eq_ok_iff.mp listed)
  exact ⟨rounds, phase⟩

/-- Over layers of rounds that lead to one another, the first domain has a point for every value. -/
theorem Linked.domainSize_eq {offset : Element field}
    {rounds : List (Round prover.options prover.hasher other others)}
    (linked : Linked offset values channel rounds after) (inside : 0 < rounds.length) :
    ({ prover with layers := rounds.map Round.layer } : Prover field).domainSize = values.size := by
  -- The domain is measured by the cells of the first layer, which are all of its vector.
  have first := linked.values_zero inside
  rw [← first]
  cases rounds with
  -- Without a round there is no layer to measure.
  | nil => simp at inside
  | cons round rest =>
    -- Rows of the first round hold each value once.
    show round.table.cells.size = round.values.size
    rw [round.table.size_cells, round.width_table,
      height_mul_width_of_splitRows round.splitRows_eq]

namespace CommitPhase

variable {rounds : List (Round prover.options prover.hasher other others)}

/-- There is at least the round of the remainder. -/
theorem length_pos (phase : CommitPhase prover channel values rounds built after) :
    0 < rounds.length := by
  -- Even a vector within the limit is folded once, for the remainder.
  rw [phase.length_rounds]
  exact Nat.succ_pos _

/-- The first domain has a point for every value. -/
theorem domainSize_eq (phase : CommitPhase prover channel values rounds built after) :
    built.domainSize = values.size := by
  -- The layers that are held are those of the rounds.
  rw [phase.built_eq]
  exact phase.linked.domainSize_eq phase.length_pos

end CommitPhase

/-- The sum of all bytes as a digest of one byte. -/
def checksum : Hasher where
  name := "checksum"
  digestSize := 1
  digest data := [data.sum]
  length_digest _ := rfl

/-- A prover that folds four values into one until four are left. -/
def foursProver : Prover seventeen where
  options := {
    foldingFactor := 4
    maxRemainderSize := 4
    blowupFactor := 4
    domainOffset := seventeen.primitiveElement
    isPowerOfTwo_foldingFactor := ⟨2, rfl⟩
    two_le_foldingFactor := by decide
    isPowerOfTwo_maxRemainderSize := ⟨2, rfl⟩
    foldingFactor_le := by decide
    isPowerOfTwo_blowupFactor := ⟨2, rfl⟩
    domainOffset_ne_zero := by decide }
  hasher := checksum

/-- A channel that nothing has been absorbed into. -/
def freshChannel : Channel seventeen checksum :=
  .ofSeed seventeen checksum []

/-- The values of `x^5 + x` at the powers of three, from the first one on. -/
def sixteenValues : Evaluations :=
  .plain (.list ([8, 0, 16, 9, 2, 0, 4, 15, 9, 0, 1, 8, 15, 0, 13, 2].map .integer))

/-- The elements of the sixteen values. -/
def sixteenElements : Array (Element seventeen) :=
  (#[8, 0, 16, 9, 2, 0, 4, 15, 9, 0, 1, 8, 15, 0, 13, 2] : Array Nat).map .ofNat

/-- Sixteen values are committed to in two rounds. -/
theorem build_foursProver :
    foursProver.build freshChannel sixteenValues
      = (.ok (), (foursProver.build freshChannel sixteenValues).2.1,
          (foursProver.build freshChannel sixteenValues).2.2) :=
  Prod.ext (by decide +kernel) rfl

/-- Their domain has sixteen points. -/
theorem domainSize_foursProver :
    (foursProver.build freshChannel sixteenValues).2.1.domainSize = 16 := by
  decide +kernel

end Proximity
