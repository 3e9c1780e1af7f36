import Mathlib
import Proximity.Proofs.Projection.Degree
import Proximity.Proofs.Prover.Query

/-! Every round turns the evaluations of a polynomial into those of its fold, whatever the channel. -/

namespace Proximity

open scoped Element
open Polynomial

variable {field other : PrimeField} {hasher others : Hasher} {options : Options field}

namespace Round

variable (round : Round options hasher other others)

/-- The challenge as an element of the field that is folded in. -/
def point : Element field :=
  .ofNat round.challenge.value

/-- The challenge of one of several rounds, and zero beyond the last. -/
def pointAt (rounds : List (Round options hasher other others)) (index : Nat) : Element field :=
  (rounds.map point).getD index 0

/-- The challenges are those of the rounds in order. -/
theorem pointAt_eq {rounds : List (Round options hasher other others)} {index : Nat}
    (inside : index < rounds.length) : pointAt rounds index = rounds[index].point := by
  -- Below the number of rounds the default is not used.
  rw [pointAt, List.getD_eq_getElem _ _ (by rwa [List.length_map]), List.getElem_map]

variable [field.Lawful]

/-- A round's challenge is an element of its own field; and each folded value is the value at the
challenge of the polynomial through the values it was folded from. -/
theorem folded_eq : round.point.value = round.challenge.value ∧ round.offset ≠ 0 ∧
    ∃ generator, rootOfUnity field round.values.size = .ok generator ∧
      ∀ row < round.folded.size, ∀ f : (Element field)[X], f.degree < options.foldingFactor →
        (∀ column < options.foldingFactor, round.values[row + column * round.folded.size]?
          = some (f.eval (round.offset * generator ^ (row + column * round.folded.size)))) →
        round.folded[row]? = some (f.eval round.point) := by
  -- What is known of the fold is said of the table, and the table holds the vector.
  obtain ⟨generator, found, start, shifted, shifts, point, drawn, size, values⟩ :=
    projectRows_eq_ok round.projected
  -- Offset and challenge were read back from their integers, unchanged.
  have offset : start = round.offset :=
    Element.ext (by exact_mod_cast (Element.ofInt?_eq_ok_iff.mp shifted).symm)
  have challenge : point.value = round.challenge.value := by
    exact_mod_cast (Element.ofInt?_eq_ok_iff.mp drawn).symm
  -- The residue is below the order, so taking the remainder does not change it.
  have same : round.point = point := by
    refine Element.ext ?_
    show round.challenge.value % field.order = point.value
    rw [← challenge, Nat.mod_eq_of_lt point.value_lt]
  rw [round.width_table, height_mul_width_of_splitRows round.splitRows_eq] at found
  subst offset
  refine ⟨same ▸ challenge, shifts, generator, found, fun row inside f small through => ?_⟩
  rw [same]
  rw [size] at inside through
  refine values ⟨row, inside⟩ f (round.width_table ▸ small) fun column => ?_
  -- An entry of the table is the value of the vector at its row and column.
  have inColumn : column.val < options.foldingFactor := round.width_table ▸ column.isLt
  have cell := value?_of_splitRows round.splitRows_eq inside inColumn
  rw [round.table.value?_eq_entry ⟨row, inside⟩ column, through column inColumn] at cell
  exact (Option.some.inj cell).symm

/-- A round leads from the evaluations of a polynomial to those of its fold at the challenge. -/
theorem evaluates_folded {f : (Element field)[X]} (evaluates : Evaluates f round.offset round.values) :
    Evaluates (foldPolynomial options.foldingFactor round.point f)
      (round.offset ^ options.foldingFactor) round.folded := by
  -- The challenge has the same residue in the field that is folded in.
  have projected := round.projected
  rw [← round.folded_eq.1] at projected
  exact evaluates_projectRows round.splitRows_eq projected evaluates

end Round

namespace Linked

variable {offset : Element field} {values : Array (Element field)}
  {channel after : Channel other others} {rounds : List (Round options hasher other others)}

/-- Every round commits to the evaluations of the polynomial folded at the challenges before. -/
theorem evaluates_foldRounds [field.Lawful] (linked : Linked offset values channel rounds after)
    {f : (Element field)[X]} (evaluates : Evaluates f offset values) {index : Nat}
    (inside : index < rounds.length) :
    Evaluates (foldRounds options.foldingFactor (Round.pointAt rounds) f index)
      (offset ^ options.foldingFactor ^ index) rounds[index].values := by
  -- One round folds the polynomial once, and raises the offset as the next round has it.
  induction index with
  -- Before the first round nothing is folded.
  | zero =>
    rw [linked.values_zero inside, pow_zero, pow_one]
    exact evaluates
  -- The round at the index folds once more, at its own challenge.
  | succ index ih =>
    have before : index < rounds.length := Nat.lt_of_succ_lt inside
    have step := rounds[index].evaluates_folded (linked.offset_eq before ▸ ih before)
    rw [linked.values_succ inside, foldRounds, Round.pointAt_eq before, pow_succ, pow_mul,
      ← linked.offset_eq before]
    exact step

end Linked

/-- The evaluations of a polynomial are committed to round by round as those of its folds, whose
coefficients are sums over the digits that have been folded away; and the remainder evaluates the last of
them. -/
theorem layers_evaluate_folds [field.Lawful] {prover built : Prover field}
    {channel after : Channel other others} {evaluations : Evaluations}
    (ran : prover.build channel evaluations = (.ok (), built, after))
    {values : Array (Element field)} (given : evaluations.vector field = .ok values)
    {f : (Element field)[X]} (evaluates : Evaluates f prover.options.domainOffset values) :
    ∃ rounds : List (Round prover.options prover.hasher other others),
      Linked prover.options.domainOffset values channel rounds after ∧
      ∃ challenges : Nat → Element field,
        (∀ index (inside : index < rounds.length),
          (challenges index).value = rounds[index].challenge.value) ∧
        ∃ folds : Nat → (Element field)[X],
          (∀ index exponent, (folds index).coeff exponent
            = ∑ low ∈ Finset.range (prover.options.foldingFactor ^ index),
                f.coeff (exponent * prover.options.foldingFactor ^ index + low)
                  * ∏ before ∈ Finset.range index, challenges before
                      ^ (low / prover.options.foldingFactor ^ before % prover.options.foldingFactor)) ∧
          (∀ index, (folds index).natDegree ≤ f.natDegree / prover.options.foldingFactor ^ index) ∧
          built.layers.length = rounds.length ∧
          (∀ index layer, built.layers[index]? = some layer → ∃ natural,
            joinRows layer.evaluations prover.options.foldingFactor = .ok natural ∧
            natural.size = values.size / prover.options.foldingFactor ^ index ∧
            Evaluates (folds index)
              (prover.options.domainOffset ^ prover.options.foldingFactor ^ index) natural) ∧
          ∀ positions : List Int, positions ≠ [] →
            (∀ position ∈ positions, 0 ≤ position ∧ position < built.domainSize) →
            ∃ proof remainder, (built.prove positions).1 = .ok proof ∧
              proof.remainder = some remainder ∧
              Evaluates (folds (built.layers.length - 1)) (prover.options.domainOffset
                ^ prover.options.foldingFactor ^ (built.layers.length - 1)) remainder := by
  -- The rounds are those of the commit phase on the vector, which the values are.
  obtain ⟨vector, rounds, listed, phase⟩ := exists_commitPhase_of_build ran
  obtain rfl : vector = values := Except.ok.inj (listed.symm.trans given)
  have positive := prover.options.foldingFactor_pos
  have domainSize := phase.domainSize_eq
  -- Every round holds the evaluations of the fold so far.
  have folds : ∀ index (inside : index < rounds.length),
      Evaluates (foldRounds prover.options.foldingFactor (Round.pointAt rounds) f index)
        (prover.options.domainOffset ^ prover.options.foldingFactor ^ index) rounds[index].values :=
    fun _ inside => phase.linked.evaluates_foldRounds evaluates inside
  have length : built.layers.length = rounds.length := by rw [phase.built_eq, List.length_map]
  refine ⟨rounds, phase.linked, Round.pointAt rounds, fun index inside => ?_, _,
    coeff_foldRounds positive _ f, natDegree_foldRounds_le positive _ f, length,
    fun index layer held => ?_, fun positions nonempty inside => ?_⟩
  · -- The challenges as elements have the residues that were drawn.
    rw [Round.pointAt_eq inside]
    exact rounds[index].folded_eq.1
  · -- A stored layer is a round's, and joining its rows gives back the round's vector.
    obtain rfl := phase.built_eq
    rw [List.getElem?_map, Option.map_eq_some_iff] at held
    obtain ⟨round, found, rfl⟩ := held
    obtain ⟨inside, rfl⟩ := List.getElem?_eq_some_iff.mp found
    exact ⟨_, joinRows_of_splitRows rounds[index].splitRows_eq, phase.linked.size_values inside,
      folds index inside⟩
  · -- The remainder is the vector of the last round.
    rw [domainSize] at inside
    obtain ⟨proof, proved, answers⟩ := phase.prove_eq_ok nonempty inside
    obtain ⟨last, final, remainder⟩ := answers.remainder
    rw [List.getLast?_eq_getElem?] at final
    obtain ⟨within, rfl⟩ := List.getElem?_eq_some_iff.mp final
    exact ⟨proof, _, congrArg Prod.fst proved, remainder, by
      rw [length]
      exact folds _ within⟩

/-- Sixteen values of a polynomial of degree five leave a remainder of degree one at most. -/
theorem layers_evaluate_folds_two_rounds :
    sixteenValues.vector seventeen = .ok sixteenElements ∧
      Evaluates (X ^ 5 + X) seventeen.primitiveElement sixteenElements ∧
      ∃ proof remainder, ((foursProver.build freshChannel sixteenValues).2.1.prove [7]).1 = .ok proof ∧
        proof.remainder = some remainder ∧
        ∃ fold : (Element seventeen)[X], fold.natDegree ≤ 1 ∧
          Evaluates fold (seventeen.primitiveElement ^ 4) remainder := by
  -- The sixteen values are of degree five, on the coset that the prover commits over.
  have given : sixteenValues.vector seventeen = .ok sixteenElements := by decide +kernel
  have evaluates : Evaluates (X ^ 5 + X) seventeen.primitiveElement sixteenElements := by
    refine ⟨seventeen.primitiveElement, by decide +kernel, ?_⟩
    -- Each of the sixteen values is compared.
    simp only [eval_add, eval_pow, eval_X]
    decide +kernel
  have degree : (X ^ 5 + X : (Element seventeen)[X]).natDegree ≤ 5 := by compute_degree
  have length : (foursProver.build freshChannel sixteenValues).2.1.layers.length = 2 := by
    decide +kernel
  -- The one position is inside.
  have inside : ∀ position ∈ ([7] : List Int), 0 ≤ position ∧
      position < (foursProver.build freshChannel sixteenValues).2.1.domainSize := by
    rw [domainSize_foursProver]
    decide
  obtain ⟨_, _, _, _, folds, _, small, _, _, answered⟩ :=
    layers_evaluate_folds build_foursProver given evaluates
  obtain ⟨proof, remainder, proved, sent, last⟩ := answered [7] (by decide) inside
  -- Of two layers the second is the last, folded once.
  rw [length] at last
  exact ⟨given, evaluates, proof, remainder, proved, sent, folds 1,
    (small 1).trans (Nat.div_le_div_right degree), last⟩

end Proximity
