import Mathlib
import Proximity.Proofs.Prover.Degree

/-! A verifier that folds the opened rows itself finds every fold again, in the next opening or in the
remainder. -/

namespace Proximity

open scoped Element
open Polynomial

variable {field other : PrimeField} {hasher others : Hasher} {options : Options field}

/-- The value that a proof shows for an index of a round's vector: a column of an opened row, or a place
in the remainder once the openings are used up. -/
def Proof.shown (proof : Proof field) (positions : List Int) (size factor round index : Nat) :
    Option (Element field) :=
  match proof.layers[round]?, foldedPositions positions size factor (round + 1) with
  | some opening, .ok rows =>
    let height := size / factor ^ (round + 1)
    opening.values.value? (rows.idxOf ((index % height : Nat) : Int)) (index / height)
  | some _, .error _ => none
  | none, _ => proof.remainder.bind fun remainder => remainder[index]?

/-- A small polynomial that takes the values of an opened row at given points, one for each column. -/
structure LayerOpening.IsThrough (opening : LayerOpening field) (factor place : Nat)
    (point : Nat → Element field) (f : (Element field)[X]) : Prop where
  degree_lt : f.degree < factor
  value_eq : ∀ column < factor, opening.values.value? place column = some (f.eval (point column))

/-- An index whose row is opened is shown with its value in the vector of the round. -/
theorem Answers.shown_eq {rounds : List (Round options hasher other others)} {size : Nat}
    {positions : List Int} {proof : Proof field} (answers : Answers rounds size positions proof)
    {round : Nat} (inside : round < rounds.length)
    (whole : rounds[round].values.size = size / options.foldingFactor ^ round) {rows : List Int}
    (folded : foldedPositions positions size options.foldingFactor (round + 1) = .ok rows)
    {index : Nat} (within : index < rounds[round].values.size)
    (opened : ((index % (size / options.foldingFactor ^ (round + 1)) : Nat) : Int) ∈ rows) :
    proof.shown positions size options.foldingFactor round index = rounds[round].values[index]? := by
  -- A row of the round's vector is named by the remainder of an index.
  have height : rounds[round].values.size / options.foldingFactor
      = size / options.foldingFactor ^ (round + 1) := by
    rw [whole, Nat.div_div_eq_div_mul, ← pow_succ]
  have length := answers.length_layers
  by_cases listed : round < proof.layers.length
  · -- The round has an opening, in which the row was selected.
    obtain ⟨same, others, found, again, _, authenticates⟩ := answers.opened round listed
    obtain ⟨_, rfl⟩ := List.getElem?_eq_some_iff.mp found
    obtain rfl : others = rows := Except.ok.inj (again.symm.trans folded)
    -- The index is split into the row and the column that it stands in.
    have column : index / (size / options.foldingFactor ^ (round + 1)) < options.foldingFactor := by
      refine Nat.div_lt_of_lt_mul ?_
      rw [← height, ← rounds[round].height_table,
        height_mul_width_of_splitRows rounds[round].splitRows_eq]
      exact within
    -- The row stands at its place among the rows that are opened.
    have value := authenticates.value_eq _ (List.idxOf_lt_length_iff.mpr opened) _ column
    rw [List.getElem_idxOf, height, Int.toNat_natCast, Nat.mod_add_div'] at value
    simp only [Proof.shown, List.getElem?_eq_getElem listed, folded, value]
  · -- Only the last round has no opening, and the remainder is its whole vector.
    obtain ⟨last, final, remainder⟩ := answers.remainder
    have lastRound : rounds.length - 1 = round := by omega
    rw [List.getLast?_eq_getElem?, lastRound, List.getElem?_eq_getElem inside,
      Option.some.injEq] at final
    simp only [Proof.shown, List.getElem?_eq_none (Nat.le_of_not_lt listed), remainder, final,
      Option.bind_some]

/-- Through the values that a round folds into one there is exactly one small polynomial, and the folded
value is its value at the challenge. -/
theorem Round.exists_through [field.Lawful] (round : Round options hasher other others) :
    ∃ generator, rootOfUnity field round.values.size = .ok generator ∧
      ∀ row < round.folded.size, ∃ f : (Element field)[X],
        (f.degree < options.foldingFactor ∧
          ∀ column < options.foldingFactor, round.values[row + column * round.folded.size]?
            = some (f.eval (round.offset * generator ^ (row + column * round.folded.size)))) ∧
        (∀ g : (Element field)[X], g.degree < options.foldingFactor →
          (∀ column < options.foldingFactor, round.values[row + column * round.folded.size]?
            = some (g.eval (round.offset * generator ^ (row + column * round.folded.size)))) → g = f) ∧
        round.folded[row]? = some (f.eval round.point) := by
  obtain ⟨_, shifts, generator, found, folded⟩ := round.folded_eq
  refine ⟨generator, found, ?_⟩
  intro row inside
  -- The row's points are as many as the factor says, and different.
  have whole : round.folded.size * options.foldingFactor = round.values.size := by
    rw [size_projectRows round.projected, height_mul_width_of_splitRows round.splitRows_eq]
  have within : ∀ column : Fin options.foldingFactor,
      row + column.val * round.folded.size < round.values.size := by
    intro column
    rw [← whole, Nat.add_comm, Nat.mul_comm round.folded.size]
    exact Table.cell_lt column.isLt inside
  rw [← whole] at found
  have distinct : Function.Injective fun column : Fin options.foldingFactor =>
      round.offset * generator ^ (row + column.val * round.folded.size) :=
    rowPoints_injective found shifts ⟨row, inside⟩
  -- Every column of the row has a value in the vector.
  have present : ∀ column : Fin options.foldingFactor, ∃ value,
      round.values[row + column.val * round.folded.size]? = some value :=
    fun column => ⟨_, Array.getElem?_eq_getElem (within column)⟩
  choose entries listed using present
  -- Taking the values at the row's points is taking these entries.
  have through : ∀ f : (Element field)[X],
      (∀ column < options.foldingFactor, round.values[row + column * round.folded.size]?
        = some (f.eval (round.offset * generator ^ (row + column * round.folded.size)))) ↔
      ∀ column : Fin options.foldingFactor,
        f.eval (round.offset * generator ^ (row + column.val * round.folded.size)) = entries column := by
    intro f
    constructor
    · -- What is shown in the column is the entry.
      intro shown column
      have value := shown column.val column.isLt
      rw [listed column, Option.some.injEq] at value
      exact value.symm
    · -- The entry is what is shown in the column.
      intro takes column inColumn
      rw [listed ⟨column, inColumn⟩, takes ⟨column, inColumn⟩]
  -- Interpolation picks the one small polynomial that takes the values at the row's points.
  obtain ⟨f, ⟨small, takes⟩, unique⟩ := existsUnique_through distinct entries
  exact ⟨f, ⟨small, (through f).mpr takes⟩,
    fun g degree agrees => unique g ⟨degree, (through g).mp agrees⟩,
    folded row inside f small ((through f).mpr takes)⟩

/-- In its own field a challenge is folded at as it is. -/
theorem Round.point_eq (round : Round options hasher field others) :
    round.point = round.challenge :=
  -- Challenges are reduced already.
  Element.ext (Nat.mod_eq_of_lt round.challenge.value_lt)

section Phase

variable {prover built : Prover field} {channel after : Channel other others}
  {values : Array (Element field)}
  {rounds : List (Round prover.options prover.hasher other others)} {positions : List Int}
  {proof : Proof field}

/-- The first round shows the evaluations at all positions. -/
theorem CommitPhase.shown_zero (phase : CommitPhase prover channel values rounds built after)
    (answers : Answers rounds values.size positions proof) {position : Int}
    (member : position ∈ positions) (natural : 0 ≤ position) (below : position < values.size) :
    proof.shown positions values.size prover.options.foldingFactor 0 position.toNat
      = values[position.toNat]? := by
  -- Nothing has been folded before the first round.
  have first := phase.length_pos
  have start := phase.linked.values_zero first
  have within : position.toNat < rounds[0].values.size := by
    rw [start]
    omega
  -- The position is in a row that is opened, as it folds to that row.
  obtain ⟨rows, folded, opened⟩ := exists_foldedPositions_succ (phase.linked.room first)
    (rfl : foldedPositions positions _ _ 0 = .ok positions)
  rw [answers.shown_eq first (phase.linked.size_values first) folded within
    (opened position member natural), start]

/-- A row that is opened in one round is folded into a value that the next round shows. -/
theorem CommitPhase.shown_succ (phase : CommitPhase prover channel values rounds built after)
    (answers : Answers rounds values.size positions proof) {index : Nat}
    (next : index + 1 < rounds.length) {rows : List Int}
    (folded : foldedPositions positions values.size prover.options.foldingFactor (index + 1)
      = .ok rows) {row : Int} (member : row ∈ rows) (natural : 0 ≤ row)
    (inside : row.toNat < rounds[index].folded.size) :
    proof.shown positions values.size prover.options.foldingFactor (index + 1) row.toNat
      = rounds[index].folded[row.toNat]? := by
  -- The next round commits to what this one has folded.
  have start := phase.linked.values_succ next
  have within : row.toNat < rounds[index + 1].values.size := by rwa [start]
  -- Folded once more, the row's own index is among those opened next.
  obtain ⟨later, again, opened⟩ := exists_foldedPositions_succ (phase.linked.room next) folded
  rw [answers.shown_eq next (phase.linked.size_values next) again within
    (opened row member natural), start]

end Phase

/-- Every proof is consistent: the openings of the first round show the evaluations at all positions, and
every opened row folds, at the challenge that comes after the roots up to its own, into the value that is
shown for it in the next round. -/
theorem queries_consistent [field.Lawful] {prover built : Prover field}
    {channel after : Channel field others} {evaluations : Evaluations}
    (ran : prover.build channel evaluations = (.ok (), built, after)) {positions : List Int}
    (nonempty : positions ≠ [])
    (inside : ∀ position ∈ positions, 0 ≤ position ∧ position < built.domainSize) :
    ∃ values roots, ∃ challenges : List (Element field), ∃ proof,
      evaluations.vector field = .ok values ∧
      after.commitments = channel.commitments ++ roots ∧
      challenges.length = roots.length ∧
      (∀ index (within : index < challenges.length),
        channel.challengeAfter (roots.take (index + 1)) = .ok challenges[index]) ∧
      (built.prove positions).1 = .ok proof ∧ proof.layers.length + 1 = roots.length ∧
      (∀ position ∈ positions, ∃ value, values[position.toNat]? = some value ∧
        proof.shown positions values.size prover.options.foldingFactor 0 position.toNat
          = some value) ∧
      ∀ index (within : index < proof.layers.length), ∃ rows generator challenge,
        foldedPositions positions values.size prover.options.foldingFactor (index + 1) = .ok rows ∧
        proof.layers[index].values.height = rows.length ∧
        rootOfUnity field ((values.size / prover.options.foldingFactor ^ index : Nat) : Int)
          = .ok generator ∧
        challenges[index]? = some challenge ∧
        ∀ place (listed : place < rows.length), ∃ f,
          let point := fun column => prover.options.domainOffset ^ prover.options.foldingFactor ^ index
            * generator ^ (rows[place].toNat
              + column * (values.size / prover.options.foldingFactor ^ (index + 1)))
          proof.layers[index].IsThrough prover.options.foldingFactor place point f ∧
          (∀ g, proof.layers[index].IsThrough prover.options.foldingFactor place point g → g = f) ∧
          proof.shown positions values.size prover.options.foldingFactor (index + 1)
            rows[place].toNat = some (f.eval challenge) := by
  -- A build that succeeds is a commit phase, whose layers answer the positions.
  obtain ⟨values, rounds, listed, phase⟩ := exists_commitPhase_of_build ran
  rw [phase.domainSize_eq] at inside
  -- The roots and the challenges are those of the rounds, one of each for a round.
  obtain ⟨proof, proved, answers⟩ := phase.prove_eq_ok nonempty inside
  have linked := phase.linked
  have length := answers.length_layers
  refine ⟨values, rounds.map fun round => round.tree.root, rounds.map Round.challenge, proof, listed,
    linked.commitments_eq, by simp, fun index within => ?_, congrArg Prod.fst proved, by simpa using length,
    fun position member => ?_, fun index within => ?_⟩
  · -- Replaying from the channel itself draws the same challenges.
    rw [List.length_map] at within
    rw [List.getElem_map]
    exact linked.challengeAfter_eq (.refl channel) within
  · -- A position in the domain has a value, and it is shown.
    obtain ⟨natural, below⟩ := inside position member
    have within : position.toNat < values.size := by omega
    have value := Array.getElem?_eq_getElem within
    exact ⟨_, value, (phase.shown_zero answers member natural below).trans value⟩
  · -- The opening belongs to the round at its index.
    obtain ⟨round, rows, found, folded, names, authenticates⟩ := answers.opened index within
    have current : index < rounds.length := by omega
    have next : index + 1 < rounds.length := by omega
    obtain rfl : rounds[index] = round := by
      rwa [List.getElem?_eq_getElem current, Option.some.injEq] at found
    obtain ⟨generator, rooted, through⟩ := rounds[index].exists_through
    rw [linked.size_values current] at rooted
    refine ⟨rows, generator, rounds[index].challenge, folded, authenticates.height_eq, rooted,
      by rw [List.getElem?_map, found]; rfl, fun place listed => ?_⟩
    -- A row that is opened is one of the folded vector.
    obtain ⟨natural, below⟩ := names.inside _ (List.getElem_mem listed)
    have inRow : rows[place].toNat < rounds[index].folded.size := by
      rw [linked.size_folded current]
      omega
    -- The row's polynomial is the only one, and the next vector holds its value at the challenge.
    obtain ⟨f, ⟨small, agrees⟩, unique, value⟩ := through rows[place].toNat inRow
    rw [Round.point_eq] at value
    rw [linked.size_folded current, linked.offset_eq current] at agrees unique
    -- The opened values are those of the round's vector.
    have cells := authenticates.value_eq place listed
    rw [← Round.size_folded, linked.size_folded current] at cells
    refine ⟨f, ⟨small, fun column inColumn => (cells column inColumn).trans (agrees column inColumn)⟩,
      fun g other => unique g other.degree_lt fun column inColumn =>
        (cells column inColumn).symm.trans (other.value_eq column inColumn), ?_⟩
    rw [phase.shown_succ answers next folded (List.getElem_mem listed) natural inRow, value]

/-- Positions may be named in any order and more than once. -/
theorem queries_consistent_repeated :
    ∃ proof, ((foursProver.build freshChannel sixteenValues).2.1.prove [13, 2, 1, 13]).1 = .ok proof ∧
      ∀ position ∈ ([13, 2, 1, 13] : List Int), ∃ value,
        sixteenElements[position.toNat]? = some value ∧
        proof.shown [13, 2, 1, 13] 16 4 0 position.toNat = some value := by
  have inside : ∀ position ∈ ([13, 2, 1, 13] : List Int), 0 ≤ position ∧
      position < (foursProver.build freshChannel sixteenValues).2.1.domainSize := by
    rw [domainSize_foursProver]
    decide
  have given : sixteenValues.vector seventeen = .ok sixteenElements := by decide +kernel
  -- The vector that the theorem speaks of is the one that the values stand for.
  obtain ⟨values, _, _, proof, listed, _, _, _, proved, _, shown, _⟩ :=
    queries_consistent build_foursProver (by decide) inside
  obtain rfl : sixteenElements = values := Except.ok.inj (given.symm.trans listed)
  -- Of all that is shown, the first round's part is what is claimed.
  have size : sixteenElements.size = 16 := by decide +kernel
  rw [size] at shown
  exact ⟨proof, proved, shown⟩

end Proximity
