import Mathlib
import Proximity.Proofs.Prover.Answer

/-! The rows that are opened in a layer: those that each position is folded to by itself, whatever else is
queried and in whatever order. -/

namespace Proximity

namespace Prover

variable {field : PrimeField} {prover : Prover field} {positions others : List Int} {proof : Proof field}

/-- Each opening that is sent is one of the layers held, at positions folded once for each layer up to it. -/
theorem opening_cases (proved : (prover.prove positions).1 = .ok proof) :
    proof.layers.length + 1 = prover.layers.length ∧
      ∀ index (inside : index < proof.layers.length),
        ∃ (layer : Layer field prover.hasher) (rows : List Int), prover.layers[index]? = some layer ∧
          foldedPositions positions prover.domainSize prover.options.foldingFactor (index + 1)
            = .ok rows ∧
          layer.query rows prover.options.foldingFactor = .ok proof.layers[index] := by
  obtain ⟨last, openings, remainder, found, opened, _, rfl⟩ := answer_cases (answer_of_prove proved)
  -- An answer ends with the last layer, so there is one.
  have some : 0 < prover.layers.length := by
    rw [List.length_pos_iff]
    intro idle
    simp [idle] at found
  -- Each of the layers before the last has been opened.
  obtain ⟨length, each⟩ := openLayers_cases opened
  rw [List.length_dropLast] at length
  refine ⟨length ▸ Nat.sub_add_cancel some, fun index inside => ?_⟩
  -- A layer before the last is the same one among all layers.
  obtain ⟨layer, rows, listed, folded, queried⟩ := each index inside
  rw [List.getElem?_dropLast, if_pos (length ▸ inside)] at listed
  exact ⟨layer, rows, listed, folded, queried⟩

/-- Layers that some uses have left are the first ones over their domain. -/
theorem Reachable.begun (reachable : prover.Reachable) (held : prover.layers ≠ []) :
    prover.Begun prover.domainSize := by
  -- The layers were stored by some build, refused or not.
  obtain ⟨options, hasher, operations, rfl⟩ := reachable
  obtain ⟨_, _, before, _, _, _, _, _, _, _, _, idle, _, _, ran⟩ :=
    (idle_or_storedBy options hasher operations).resolve_left held
  obtain ⟨values, _, _, _, _, _, _, begun, _⟩ := exists_linked_of_build ran idle held
  -- The domain is measured by the first of the layers.
  rwa [begun.commits.domainSize_eq (List.length_pos_iff.mpr held)]

/-- Openings of some layers depend on the positions as a set. -/
theorem openLayers_congr {hasher : Hasher} (same : ∀ position, position ∈ others ↔ position ∈ positions)
    (factor : Int) (layers : List (Layer field hasher)) (size : Int) :
    openLayers factor layers others size = openLayers factor layers positions size := by
  -- The first layer folds the positions, and the others see the folds, which are the same.
  cases layers with
  | nil => rfl
  | cons layer rest => rw [openLayers, openLayers, foldPositions_congr same]

/-- Positions that are answered are answered alike in any order and with any repetitions. -/
theorem prove_congr (same : ∀ position, position ∈ others ↔ position ∈ positions)
    (proved : (prover.prove positions).1 = .ok proof) :
    prover.prove others = prover.prove positions := by
  -- The checks let other positions pass if they let these pass.
  rcases prove_cases prover positions with
    ⟨_, ran⟩ | ⟨_, _, ran⟩ | ⟨_, _, ran⟩ | ⟨held, nonempty, inside⟩
  · -- A refusal sends nothing, for whichever reason.
    simp [ran] at proved
  · simp [ran] at proved
  · simp [ran] at proved
  · -- As a set, the other positions are not empty either.
    have listed : others ≠ [] := fun empty => nonempty (by
      simpa only [empty, List.not_mem_nil, false_iff, ← List.eq_nil_iff_forall_not_mem] using same)
    have among : ∀ position ∈ others, 0 ≤ position ∧ position < prover.domainSize :=
      fun position member => outside_eq_nil_iff.mp inside position ((same position).mp member)
    -- They are then opened in the same layers, one by one.
    have answered := answer_of_prove proved
    obtain ⟨last, openings, remainder, found, opened, joined, rfl⟩ := answer_cases answered
    obtain ⟨front, split⟩ := List.getLast?_eq_some_iff.mp found
    rw [split, List.dropLast_concat, ← openLayers_congr same] at opened
    rw [prove, prove, answered, answer_eq_ok split listed among opened joined]

end Prover

/-- Over a domain that all factors together divide, folding positions once for each round is folding them
once by all factors: it lists the distinct remainders by the number of rows left, the smallest first, and
these are the rows that each position is folded to by itself. So are the rows that a prover opens in a layer,
in every state that it can be in; neither the order nor a repetition of the positions shows in what it
sends. -/
theorem folds_compose {size factor rounds : Nat} (domain : 1 ≤ size) (folds : 1 ≤ rounds)
    (divides : factor ^ rounds ∣ size) (positions : List Int) :
    (∃ rows, foldedPositions positions size factor rounds = .ok rows ∧
      foldPositions positions size ((factor ^ rounds : Nat) : Int) = .ok rows ∧
      rows.Pairwise (· < ·) ∧
      (∀ row, row ∈ rows ↔
        ∃ position ∈ positions, position % ((size / factor ^ rounds : Nat) : Int) = row) ∧
      UnionOfFolds positions size factor rounds rows ∧
      ∀ others : List Int, (∀ position, position ∈ others ↔ position ∈ positions) →
        foldedPositions others size factor rounds = .ok rows) ∧
    ∀ {field : PrimeField} (prover : Prover field), prover.Reachable →
      ∀ (queried : List Int) (proof : Proof field), (prover.prove queried).1 = .ok proof →
        (∀ others : List Int, (∀ position, position ∈ others ↔ position ∈ queried) →
          prover.prove others = prover.prove queried) ∧
        ∀ index (inside : index < proof.layers.length),
          ∃ (layer : Layer field prover.hasher) (rows : List Int), prover.layers[index]? = some layer ∧
            layer.query rows prover.options.foldingFactor = .ok proof.layers[index] ∧
            UnionOfFolds queried prover.domainSize prover.options.foldingFactor (index + 1) rows := by
  obtain ⟨before, rfl⟩ : ∃ before, rounds = before + 1 := Nat.exists_eq_add_of_le' folds
  constructor
  · -- What is left of the domain is not empty, as the factors divide it.
    have room : size / factor ^ (before + 1) ≠ 0 := (Nat.div_pos (Nat.le_of_dvd domain divides)
      (Nat.pos_of_dvd_of_pos divides domain)).ne'
    have folded := foldedPositions_succ_eq_ok room divides positions
    refine ⟨_, folded, foldPositions_eq_ok room positions, pairwise_ascending _, fun row => ?_,
      unionOfFolds_of_foldedPositions room divides folded, fun others same => ?_⟩
    · -- The rows listed are the remainders, each of them once.
      rw [mem_ascending, List.mem_map]
    · -- A fold does not tell positions of one set apart.
      rw [foldedPositions_congr same, folded]
  · -- A prover folds the positions that it is asked for in the domain of its first layer.
    intro field prover reachable queried proof proved
    refine ⟨fun others same => Prover.prove_congr same proved, fun index inside => ?_⟩
    obtain ⟨length, opened⟩ := Prover.opening_cases proved
    obtain ⟨layer, rows, listed, folded, query⟩ := opened index inside
    -- A prover that has sent a proof has held layers, whose domain can be folded for each of them.
    have held : prover.layers ≠ [] := List.ne_nil_of_length_pos (by omega)
    have among : index < prover.layers.length := by omega
    obtain ⟨room, even⟩ := (reachable.begun held).fold among
    exact ⟨layer, rows, listed, query, unionOfFolds_of_foldedPositions room even folded⟩

/-- Two folds of sixty-four points by four are one by sixteen, also for a position below zero. Of sixteen
values that are committed to, the two rows are opened that three positions stand in, one of them repeated. -/
theorem folds_compose_two_rounds :
    let built := (foursProver.build freshChannel sixteenValues).2.1
    1 ≤ 64 ∧ 1 ≤ 2 ∧ 4 ^ 2 ∣ 64 ∧
      foldedPositions [13, -3, 2, 13] 64 4 2 = .ok [1, 2] ∧
      foldPositions [13, -3, 2, 13] 64 (4 ^ 2 : Nat) = .ok [1, 2] ∧
      ∃ proof layer, (built.prove [13, 2, 13]).1 = .ok proof ∧
        built.prove [2, 13] = built.prove [13, 2, 13] ∧ built.layers[0]? = some layer ∧
        proof.layers[0]?.map .ok = some (layer.query [1, 2] 4) := by
  intro built
  -- The layers held after the build are two, over sixteen points.
  have size : built.domainSize = 16 := domainSize_foursProver
  have factor : built.options.foldingFactor = 4 := by decide +kernel
  have length : built.layers.length = 2 := by decide +kernel
  have reachable : built.Reachable :=
    ⟨foursProver.options, checksum, [.build freshChannel sixteenValues], rfl⟩
  have inside : Prover.outside [13, 2, 13] built.domainSize = [] := by
    rw [size]
    decide
  -- The query is answered, with an opening of the first layer only.
  obtain ⟨proof, proved, sent⟩ :=
    reachable.exists_proof (List.ne_nil_of_length_pos (by omega)) (by decide) inside
  obtain ⟨⟨rows, folded, once, -⟩, provers⟩ := folds_compose (by decide : 1 ≤ 64)
    (by decide : 1 ≤ 2) (by decide : 4 ^ 2 ∣ 64) [13, -3, 2, 13]
  obtain ⟨alike, opened⟩ := provers built reachable [13, 2, 13] proof (congrArg Prod.fst proved)
  obtain ⟨layer, among, held, queried, union⟩ := opened 0 (by omega)
  rw [size, factor] at union
  rw [factor] at queried
  -- The rows that two folds lead to are computed as those of one.
  obtain rfl : rows = [1, 2] := Except.ok.inj (once.symm.trans (by decide))
  -- One by one, the positions stand in these two rows.
  have first : foldedPositions [13] 16 4 1 = .ok [1] := by decide
  have second : foldedPositions [2] 16 4 1 = .ok [2] := by decide
  have listed : among = ascending [1, 2, 1] := eq_ascending union.sorted fun row => by
    simp [union.mem_iff, first, second, eq_comm]
  obtain rfl : among = [1, 2] := listed.trans (by decide)
  refine ⟨by decide, by decide, by decide, folded, once, proof, layer, congrArg Prod.fst proved,
    alike _ (by simp), held, ?_⟩
  -- There is a first opening, which is the layer's answer.
  rw [List.getElem?_eq_getElem (by omega)]
  exact congrArg some queried.symm

end Proximity
