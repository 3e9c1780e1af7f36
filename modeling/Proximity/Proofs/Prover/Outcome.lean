import Mathlib
import Proximity.Proofs.Prover.Binding
import Proximity.Proofs.Prover.Chain
import Proximity.Proofs.Transcript.Runs

/-! What is checked before the first round is all that a build needs: no round behind it is refused, unless
the channel runs out of numbers. -/

namespace Proximity

open scoped Element

variable {field other : PrimeField} {hasher others : Hasher} {options : Options field}
  {prover built : Prover field} {offset : Element field} {values : Array (Element field)}
  {channel after : Channel other others} {evaluations : Evaluations} {outcome : Except Fault Unit}
  {factor rounds size : Nat}

/-- A domain that can be gone over in a number of rounds, each of which divides it by the factor. -/
structure Foldable (field : PrimeField) (factor rounds size : Nat) : Prop where
  isPowerOfTwo_size : size.isPowerOfTwo
  dvd_order_sub_one : size ∣ field.order - 1
  pow_dvd_size : factor ^ rounds ∣ size

namespace Foldable

/-- There is a point in the domain. -/
theorem size_pos (foldable : Foldable field factor rounds size) : 0 < size := by
  obtain ⟨exponent, rfl⟩ := foldable.isPowerOfTwo_size
  exact Nat.two_pow_pos exponent

/-- The first round divides the domain without a rest. -/
theorem dvd_size (foldable : Foldable field factor (rounds + 1) size) : factor ∣ size :=
  (Dvd.intro _ (pow_succ' factor rounds).symm).trans foldable.pow_dvd_size

/-- The fold of the first round can be gone over in the rounds that are left. -/
theorem fold (foldable : Foldable field factor (rounds + 1) size) :
    Foldable field factor rounds (size / factor) where
  isPowerOfTwo_size :=
    isPowerOfTwo_of_dvd foldable.isPowerOfTwo_size (Nat.div_dvd_of_dvd foldable.dvd_size)
  dvd_order_sub_one :=
    (Nat.div_dvd_of_dvd foldable.dvd_size).trans foldable.dvd_order_sub_one
  pow_dvd_size := by
    -- One of the factors has been used up.
    apply Nat.dvd_div_of_mul_dvd
    rw [← pow_succ']
    exact foldable.pow_dvd_size

end Foldable

/-- A vector over such a domain is committed to: its rows can be cut and hashed, and fill a tree. -/
theorem exists_commitRows (hasher : Hasher) (supported : options.foldingFactor ∈ supportedFactors)
    (foldable : Foldable field options.foldingFactor (rounds + 1) values.size) :
    ∃ table tree, Prover.commitRows options hasher values = .ok (table, tree) := by
  -- A domain that can be folded once more is a multiple of the factor.
  obtain ⟨table, split⟩ :=
    exists_splitRows_iff.mpr ⟨options.foldingFactor_pos.ne', foldable.dvd_size⟩
  -- There are as many rows as the fold has values, which is a power of two.
  have height : table.height = values.size / options.foldingFactor := by
    rw [← height_mul_width_of_splitRows split, Nat.mul_div_cancel _ options.foldingFactor_pos]
  -- The digests of as many rows are the leaves of a tree.
  obtain ⟨depth, power⟩ := foldable.fold.isPowerOfTwo_size
  obtain ⟨tree, grown, _⟩ := exists_rowTree hasher (height.trans power)
  obtain ⟨leaves, hashed, built⟩ := bind_eq_ok_iff.mp grown
  exact ⟨table, tree, commitRows_eq_ok_iff.mpr ⟨supported, split, leaves, hashed, built⟩⟩

/-- There is room to transform a width that is one of the folding factors. -/
theorem hasRoom_of_supported (field : PrimeField) {factor : Nat} (supported : factor ∈ supportedFactors) :
    field.hasRoom (factor * factor) := by
  -- The largest factor has 256 cells to transform, each of eight bytes at most.
  have cells : factor * factor ≤ 256 := by
    have every : ∀ factor ∈ supportedFactors, factor * factor ≤ 256 := by decide
    exact every factor supported
  have bytes := Nat.mul_le_mul cells field.cellBytes_le
  -- That is far below what has addresses.
  have limit : 256 * 8 < wordLimit := by decide
  exact decide_eq_true (bytes.trans_lt limit)

/-- One round goes through, unless the channel runs out of numbers. -/
theorem commitLayer_outcome [field.Lawful] (smaller : other.order ≤ field.order)
    (supported : options.foldingFactor ∈ supportedFactors)
    (foldable : Foldable field options.foldingFactor (rounds + 1) values.size)
    (shifts : offset ≠ 0) (bounded : channel.challenges ≤ channel.commitments.length)
    {result : Except Fault (Layer field hasher × Array (Element field))}
    (ran : Prover.commitLayer options hasher offset values channel = (result, after)) :
    (∃ layer folded, result = .ok (layer, folded)) ∨
      result = .error .counterExhausted ∧ after.Exhausted := by
  -- The rows are committed to, whatever the channel is.
  obtain ⟨table, tree, committed⟩ := exists_commitRows hasher supported foldable
  obtain ⟨_, split, _⟩ := commitRows_eq_ok_iff.mp committed
  simp only [Prover.commitLayer, committed, Prod.mk.injEq] at ran
  obtain ⟨rfl, rfl⟩ := ran
  -- The root has just been absorbed, so the draw can only fail for want of numbers.
  rcases (Channel.drawChallenge_commit bounded tree.root).2 with
    ⟨challenge, drawn⟩ | ⟨drawn, exhausted⟩
  · left
    -- All points of the domain are shifted by a unit, and the challenge is one of the field's residues.
    have cells := height_mul_width_of_splitRows split
    have width := (splitRows_eq_ok_iff.mp split).2.2
    have high : 0 < table.height := Nat.pos_of_mul_pos_right (cells ▸ foldable.size_pos)
    have positive := Element.value_pos shifts
    have below := offset.value_lt
    have inside := challenge.value_lt
    obtain ⟨folded, projected⟩ := exists_projectRows_iff.mpr
      ⟨high, width ▸ options.foldingFactor_pos, width ▸ cells ▸ foldable.dvd_order_sub_one,
        width ▸ hasRoom_of_supported field supported,
        ⟨Int.natCast_pos.mpr positive, Int.ofNat_lt.mpr below⟩, Int.natCast_nonneg challenge.value,
        Int.ofNat_lt.mpr (Nat.lt_of_lt_of_le inside smaller)⟩
    exact ⟨_, folded, by rw [drawn, ok_bind, projected, ok_bind, pure_eq_ok]⟩
  · right
    exact ⟨by rw [drawn, error_bind], exhausted⟩

/-- A round keeps the challenges within the roots. -/
theorem Round.challenges_le (round : Round options hasher other others)
    (bounded : round.before.challenges ≤ round.before.commitments.length) :
    round.after.challenges ≤ round.after.commitments.length := by
  -- To the channel a round is a root and a draw.
  rw [← round.after_eq]
  exact Channel.run_challenges_le bounded [.commit round.tree.root, .drawChallenge]

/-- All rounds go through, unless the channel runs out of numbers. -/
theorem commitLayers_outcome [field.Lawful] (smaller : other.order ≤ field.order)
    (supported : options.foldingFactor ∈ supportedFactors)
    (foldable : Foldable field options.foldingFactor rounds values.size)
    (shifts : offset ≠ 0) (bounded : channel.challenges ≤ channel.commitments.length)
    {layers : List (Layer field hasher)}
    (ran : Prover.commitLayers options hasher rounds offset values channel
      = (outcome, layers, after)) :
    outcome = .ok () ∨ outcome = .error .counterExhausted ∧ after.Exhausted := by
  -- The shift and the channel are open, since every round starts from others.
  induction rounds generalizing offset values channel layers with
  | zero =>
    -- Without a round there is nothing to refuse.
    simp only [Prover.commitLayers, Prod.mk.injEq] at ran
    exact .inl ran.1.symm
  | succ rounds ih =>
    unfold Prover.commitLayers at ran
    split at ran
    · -- A first round that is refused is the outcome.
      rename_i fault refusedAt refused
      simp only [Prod.mk.injEq] at ran
      obtain ⟨rfl, _, rfl⟩ := ran
      rcases commitLayer_outcome smaller supported foldable shifts bounded refused with
        ⟨_, _, passed⟩ | ⟨same, exhausted⟩
      · simp at passed
      · exact .inr ⟨congrArg _ (Except.error.inj same), exhausted⟩
    · -- The others start from its fold, with a shift that is still not zero.
      rename_i layer folded between first
      obtain ⟨round, rfl, rfl, rfl, rfl, rfl, rfl⟩ := exists_round_of_commitLayer first
      simp only [Prod.mk.injEq] at ran
      obtain ⟨finished, _, rfl⟩ := ran
      exact ih (round.size_folded ▸ foldable.fold) (pow_ne_zero _ shifts)
        (round.challenges_le bounded) (Prod.ext finished rfl)

/-- Every round counts one challenge. -/
theorem Linked.challenges_eq {rounds : List (Round options hasher other others)}
    (linked : Linked offset values channel rounds after) :
    after.challenges = channel.challenges + rounds.length := by
  induction rounds generalizing offset values channel with
  | nil => exact congrArg Channel.challenges (show channel = after from linked).symm
  | cons round rest ih =>
    obtain ⟨_, _, rfl, tail⟩ := linked
    -- The first round's challenge is counted before those of the rest.
    have counted : round.after.challenges = round.before.challenges + 1 := by
      -- A draw that finds a challenge has counted it.
      rcases (round.before.commit round.tree.root).drawChallenge_cases with
        ⟨_, refused⟩ | ⟨_, ⟨counter, counted⟩, _⟩
      · rw [round.drawn] at refused
        simp at refused
      · rw [← round.after_eq, counted]
        rfl
    rw [ih tail, counted, List.length_cons]
    omega

/-- Evaluations that can be committed to: a vector over a domain that can be gone over in all the rounds it
takes, for a prover that holds no layers and folds by one of the supported factors. -/
structure Prover.Committable (prover : Prover field) (evaluations : Evaluations)
    (values : Array (Element field)) : Prop
    extends Foldable field prover.options.foldingFactor (prover.options.numLayers values.size + 1)
      values.size where
  idle : prover.layers = []
  forms : evaluations.Forms values
  supported : prover.options.foldingFactor ∈ [4, 8, 16]

/-- Evaluations can be committed to exactly if they pass the checks before the first round, and the factor
is supported. -/
theorem committable_iff : prover.Committable evaluations values ↔
    prover.accept evaluations = .ok values ∧ prover.options.foldingFactor ∈ supportedFactors := by
  rw [accept_eq_ok_iff, vector_eq_ok_iff]
  constructor
  · intro committable
    -- A domain whose size divides the group's has a root of unity.
    have rooted := exists_rootOfUnity committable.size_pos committable.dvd_order_sub_one
    exact ⟨⟨committable.idle, committable.forms, committable.isPowerOfTwo_size, rooted,
      committable.pow_dvd_size⟩, committable.supported⟩
  · intro checked
    obtain ⟨⟨idle, forms, power, ⟨root, rooted⟩, folds⟩, supported⟩ := checked
    exact ⟨⟨power, (rootOfUnity_eq_ok_iff.mp rooted).2.1, folds⟩, idle, forms, supported⟩

/-- A factor that is not supported is refused in the first round, before a root is absorbed. -/
theorem commitLayers_unsupported (unsupported : options.foldingFactor ∉ supportedFactors) :
    Prover.commitLayers options hasher (rounds + 1) offset values channel
      = (.error (.unsupportedFactor options.foldingFactor), [], channel) := by
  have refused : Prover.commitRows options hasher values
      = .error (.unsupportedFactor options.foldingFactor) := by
    simp [Prover.commitRows, unsupported]
  simp only [Prover.commitLayers, Prover.commitLayer, refused]

/-- A build goes through exactly on evaluations that can be committed to, if the channel does not run out
of numbers; then the layers of all rounds are held and just their roots have been absorbed. On other
evaluations it changes neither the prover nor the channel. -/
theorem build_outcome [field.Lawful] (reachable : channel.Reachable)
    (smaller : other.order ≤ field.order)
    (ran : prover.build channel evaluations = (outcome, built, after)) :
    ((∃ values, prover.Committable evaluations values) →
        outcome = .ok () ∨ outcome = .error .counterExhausted ∧ after.Exhausted) ∧
      ((¬∃ values, prover.Committable evaluations values) →
        (∃ fault, outcome = .error fault) ∧ built = prover ∧ after = channel) ∧
      ∀ values : Array (Element field), evaluations.Forms values → outcome = .ok () →
        built.options = prover.options ∧ built.hasher = prover.hasher ∧
          built.Complete values.size ∧
          after.commitments = channel.commitments ++ built.roots ∧
          after.challenges = channel.challenges + built.layers.length := by
  refine ⟨?_, ?_, ?_⟩
  · -- Evaluations that fit pass the checks, so no other vector can have been accepted.
    intro fit
    obtain ⟨values, committable⟩ := fit
    obtain ⟨accepted, supported⟩ := committable_iff.mp committable
    rcases build_cases ran with ⟨fault, refused, _⟩ | ⟨same, layers, found, _, went⟩
    · rw [accepted] at refused
      simp at refused
    · obtain rfl : values = same := Except.ok.inj (accepted.symm.trans found)
      -- What is checked up front is enough for every round.
      exact commitLayers_outcome smaller supported committable.toFoldable
        prover.options.domainOffset_ne_zero reachable.challenges_le went
  · intro unfit
    rcases build_cases ran with ⟨fault, _, rfl, rfl, rfl⟩ | ⟨values, layers, accepted, rfl, went⟩
    · exact ⟨⟨fault, rfl⟩, rfl, rfl⟩
    · -- Only the factor is left to be refused.
      have unsupported : prover.options.foldingFactor ∉ supportedFactors := fun supported =>
        unfit ⟨values, committable_iff.mpr ⟨accepted, supported⟩⟩
      have idle := (accept_eq_ok_iff.mp accepted).1
      rw [commitLayers_unsupported unsupported] at went
      simp only [Prod.mk.injEq] at went
      obtain ⟨rfl, rfl, rfl⟩ := went
      -- No layers are stored where none were held.
      refine ⟨⟨_, rfl⟩, ?_, rfl⟩
      rw [← idle]
  · intro values forms passed
    subst passed
    -- What a commit phase leaves is read off its rounds.
    obtain ⟨found, rounds, listed, phase⟩ := exists_commitPhase_of_build ran
    obtain rfl := forms.unique (vector_eq_ok_iff.mp listed)
    have complete := phase.complete
    have commitments := phase.linked.commitments_eq
    have challenges := phase.linked.challenges_eq
    obtain rfl := phase.built_eq
    refine ⟨rfl, rfl, complete, ?_, ?_⟩
    · rw [commitments, Prover.roots, List.map_map]
      rfl
    · rw [challenges, List.length_map]

/-- Sixteen values can be committed to, and leave two layers whose roots are the only ones absorbed. -/
theorem build_outcome_two_rounds :
    foursProver.Committable sixteenValues sixteenElements ∧
      (foursProver.build freshChannel sixteenValues).2.1.Complete 16 ∧
      (foursProver.build freshChannel sixteenValues).2.2.commitments
        = (foursProver.build freshChannel sixteenValues).2.1.roots := by
  have accepted : foursProver.accept sixteenValues = .ok sixteenElements := by decide +kernel
  have committable : foursProver.Committable sixteenValues sixteenElements :=
    committable_iff.mpr ⟨accepted, by decide⟩
  have fresh : freshChannel.Reachable := ⟨[], [], rfl⟩
  obtain ⟨_, _, left⟩ := build_outcome fresh (Nat.le_refl seventeen.order) build_foursProver
  obtain ⟨_, _, complete, commitments, _⟩ := left sixteenElements committable.forms rfl
  have size : sixteenElements.size = 16 := by simp [sixteenElements]
  exact ⟨committable, size ▸ complete, commitments⟩

end Proximity
