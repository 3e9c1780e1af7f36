import Mathlib
import Proximity.Proofs.Merkle.Batch
import Proximity.Proofs.Positions
import Proximity.Proofs.Prover.Commitment

/-! The query phase opens every round but the last at its own rows, under the root that was absorbed. -/

namespace Proximity

variable {field other : PrimeField} {hasher others : Hasher} {options : Options field}

/-- An opening holds some rows of a vector, and authenticates them under a root. -/
structure LayerOpening.Authenticates (opening : LayerOpening field) (hasher : Hasher) (root : Bytes)
    (values : Array (Element field)) (factor : Nat) (rows : List Int) : Prop where
  height_eq : opening.values.height = rows.length
  width_eq : opening.values.width = factor
  /-- A row's values stand as far apart in the vector as there are rows. -/
  value_eq : ∀ place (inside : place < rows.length) column, column < factor →
    opening.values.value? place column
      = values[rows[place].toNat + column * (values.size / factor)]?
  verified : ∃ leaves, hashRows hasher opening.values = .ok leaves ∧
    hasher.verifyBatch root rows leaves opening.proof = true

/-- The digests of selected rows are the selected digests. -/
theorem hashRows_of_select {table selected : Table (Element field)} {leaves : List Bytes}
    {places : List Nat} (hashed : hashRows hasher table = .ok leaves)
    (rows : selected.rows = places.map fun place => table.rows.getD place [])
    (inside : ∀ place ∈ places, place < table.height) :
    hashRows hasher selected = .ok (places.map fun place => leaves.getD place []) := by
  have each := collect_eq_ok_iff.mp hashed
  rw [hashRows, rows, collect_eq_ok_iff, List.forall₂_map_left_iff, List.forall₂_map_right_iff,
    List.forall₂_same]
  -- Rows and leaves stand side by side.
  intro place member
  have inRows : place < table.rows.length := by
    rw [Table.length_rows]
    exact inside place member
  have inLeaves : place < leaves.length := by rwa [← each.length_eq]
  rw [List.getD_eq_getElem _ _ inRows, List.getD_eq_getElem _ _ inLeaves]
  exact each.get inRows inLeaves

namespace Round

variable (round : Round options hasher other others)

/-- The vector has as many rows as the factor leaves of it. -/
theorem height_table : round.table.height = round.values.size / options.foldingFactor := by
  -- The rows are as many as the folded values.
  rw [← size_projectRows round.projected, round.size_folded]

/-- There is a leaf for every row, so the rows are as many as a tree of the depth has leaves. -/
theorem two_pow_depth : 2 ^ round.tree.depth = round.table.height := by
  rw [← round.tree.leafCount_eq, round.leafCount_tree]

/-- Rows that are named once each name their leaves once each. -/
theorem namesLeaves {rows : List Int} (names : NamesRows round.table.height rows) :
    NamesLeaves round.tree.depth rows where
  nonempty := names.nonempty
  -- Rows in ascending order are not repeated.
  distinct := names.sorted.nodup
  inside row member := by
    -- A row has a leaf of its own.
    obtain ⟨natural, below⟩ := names.inside row member
    exact ⟨natural, by exact_mod_cast round.two_pow_depth ▸ below⟩

/-- The values that are kept are cut into the rows that were committed to. -/
theorem rows_layer : round.layer.rows options.foldingFactor = .ok round.table := by
  -- The width kept is that of the table, so cutting its cells by it gives the table back.
  have cut : Table.ofWidth? round.table.cells options.foldingFactor = some round.table :=
    Table.ofWidth?_eq_some_iff.mpr ⟨options.foldingFactor_pos.ne', rfl, round.width_table⟩
  rw [← Int.ofNat_eq_natCast]
  simp only [Layer.rows, layer, cut]

/-- A committed layer can be opened at any of its rows. -/
theorem query_eq_ok {rows : List Int}
    (names : NamesRows (round.values.size / options.foldingFactor) rows) :
    ∃ opening, round.layer.query rows options.foldingFactor = .ok opening ∧
      opening.Authenticates hasher round.tree.root round.values options.foldingFactor rows := by
  rw [← round.height_table] at names
  have namesLeaves := round.namesLeaves names
  -- The tree issues a proof for the rows, and the table has them all.
  obtain ⟨proof, issued⟩ : ∃ proof, round.tree.proveBatch rows = .ok proof :=
    ⟨_, round.tree.proveBatch_eq_ok_iff.mpr ⟨namesLeaves, rfl⟩⟩
  have inside : ∀ place ∈ rows.map Int.toNat, place < round.table.height :=
    round.two_pow_depth ▸ namesLeaves.place_lt
  obtain ⟨selected, chosen, height, selectedWidth, values, listed⟩ := Table.select_eq_ok inside
  refine ⟨⟨selected, proof⟩, ?_, by simpa using height, selectedWidth.trans round.width_table, ?_,
    _, hashRows_of_select round.hashRows_eq listed inside, ?_⟩
  · -- Nothing that the query asks for is refused.
    have layerIssued : round.layer.tree.proveBatch rows = .ok proof := issued
    simp only [Layer.query, layerIssued, round.rows_layer, chosen, ok_bind, pure_eq_ok]
  · -- A selected row is the row of the table at its place, and the table holds the vector.
    intro place inPlaces column inColumn
    have inMap : place < (rows.map Int.toNat).length := by simpa using inPlaces
    have inHeight : rows[place].toNat < round.table.height :=
      inside _ (List.mem_map_of_mem (List.getElem_mem inPlaces))
    rw [values place inMap column, List.getElem_map,
      value?_of_splitRows round.splitRows_eq inHeight inColumn, round.height_table]
  · -- The selected rows hash to the leaves that the tree's proof was issued for.
    have verified := verifyBatch_of_proveBatch issued
    simp only [MerkleTree.node_zero] at verified
    rwa [List.map_map]

end Round

/-- Rounds whose domains shrink by the factor are opened at the positions folded once for each of them. -/
theorem openLayers_eq_ok {rounds : List (Round options hasher other others)} {positions : List Int}
    {size : Nat} (nonempty : positions ≠ [])
    (sizes : ∀ index (inside : index < rounds.length),
      rounds[index].values.size = size / options.foldingFactor ^ index) :
    ∃ openings,
      Prover.openLayers options.foldingFactor (rounds.map Round.layer) positions size = .ok openings ∧
      openings.length = rounds.length ∧
      ∀ index (inside : index < rounds.length), ∃ rows opening,
        foldedPositions positions size options.foldingFactor (index + 1) = .ok rows ∧
        NamesRows (size / options.foldingFactor ^ (index + 1)) rows ∧
        openings[index]? = some opening ∧
        opening.Authenticates hasher rounds[index].tree.root rounds[index].values
          options.foldingFactor rows := by
  -- Each round folds the positions for the ones behind it, in a smaller domain.
  induction rounds generalizing positions size with
  | nil => exact ⟨[], rfl, rfl, fun index inside => absurd inside (by simp)⟩
  | cons round rest ih =>
    -- The first round is opened at the positions folded once.
    have whole : round.values.size = size := by simpa using sizes 0 (Nat.succ_pos _)
    have room : size / options.foldingFactor ≠ 0 := by
      rw [← whole, ← round.height_table]
      exact round.height_table_pos.ne'
    obtain ⟨rows, once⟩ : ∃ rows, foldPositions positions size options.foldingFactor = .ok rows :=
      ⟨_, foldPositions_eq_ok room positions⟩
    have names := namesRows_of_foldPositions room nonempty once
    obtain ⟨opening, queried, authenticates⟩ := round.query_eq_ok (whole ▸ names)
    -- The other rounds see the folded positions in the smaller domain.
    have shrunk : ∀ index (inside : index < rest.length), rest[index].values.size
        = size / options.foldingFactor / options.foldingFactor ^ index := by
      intro index inside
      rw [Nat.div_div_eq_div_mul, ← pow_succ']
      exact sizes (index + 1) (Nat.succ_lt_succ inside)
    obtain ⟨openings, opened, length, each⟩ := ih names.nonempty shrunk
    refine ⟨opening :: openings, ?_, congrArg (· + 1) length, fun index inside => ?_⟩
    · -- The openings of the other rounds follow the one of the first.
      simp only [List.map_cons, Prover.openLayers, once, queried, ← Int.ofNat_fdiv, opened, ok_bind,
        pure_eq_ok]
    · cases index with
      -- The first opening is for positions folded once.
      | zero =>
        refine ⟨rows, opening, foldedPositions_succ once 0, ?_, rfl, authenticates⟩
        rwa [Nat.zero_add, pow_one]
      -- A later one is for positions folded once more than among the other rounds.
      | succ index =>
        obtain ⟨later, found, folded, namesLater, listed, authentic⟩ :=
          each index (Nat.lt_of_succ_lt_succ inside)
        refine ⟨later, found, ?_, ?_, listed, authentic⟩
        · rwa [foldedPositions_succ once]
        · rwa [pow_succ', ← Nat.div_div_eq_div_mul]

/-- A proof answers positions in a domain of a size: all rounds but the last are opened at the folded
positions, and the last one's vector is sent. -/
structure Answers (rounds : List (Round options hasher other others)) (size : Nat)
    (positions : List Int) (proof : Proof field) : Prop where
  length_layers : proof.layers.length + 1 = rounds.length
  opened : ∀ index (inside : index < proof.layers.length), ∃ round rows,
    rounds[index]? = some round ∧
      foldedPositions positions size options.foldingFactor (index + 1) = .ok rows ∧
      NamesRows (size / options.foldingFactor ^ (index + 1)) rows ∧
      proof.layers[index].Authenticates hasher round.tree.root round.values options.foldingFactor rows
  remainder : ∃ last, rounds.getLast? = some last ∧ proof.remainder = some last.values

/-- The positions that lie outside the first domain, in the order given. -/
def Prover.outside (positions : List Int) (size : Nat) : List Int :=
  positions.filter fun position => position < 0 || (size : Int) ≤ position

/-- No position lies outside exactly if each of them is in the domain. -/
theorem Prover.outside_eq_nil_iff {positions : List Int} {size : Nat} :
    Prover.outside positions size = [] ↔ ∀ position ∈ positions, 0 ≤ position ∧ position < size := by
  simp only [Prover.outside, List.filter_eq_nil_iff, Bool.or_eq_true, decide_eq_true_eq, not_or, not_lt,
    not_le]

/-- Positions in the first domain are answered with the openings of all layers but the last, and with the
last one in natural order. -/
theorem answer_eq_ok {prover : Prover field} {front : List (Layer field prover.hasher)}
    {last : Layer field prover.hasher} {positions : List Int}
    {openings : List (LayerOpening field)} {remainder : Array (Element field)}
    (held : prover.layers = front ++ [last]) (nonempty : positions ≠ [])
    (inside : ∀ position ∈ positions, 0 ≤ position ∧ position < prover.domainSize)
    (opened : Prover.openLayers prover.options.foldingFactor front positions prover.domainSize
      = .ok openings)
    (joined : joinRows last.evaluations prover.options.foldingFactor = .ok remainder) :
    prover.answer positions = .ok ⟨openings, some remainder, prover.options.foldingFactor⟩ := by
  have found : prover.layers.getLast? = some last := by rw [held, List.getLast?_concat]
  have others : prover.layers.dropLast = front := by rw [held, List.dropLast_concat]
  -- No position is reported as lying outside the domain.
  have none := Prover.outside_eq_nil_iff.mpr inside
  simp only [Prover.outside] at none
  unfold Prover.answer
  simp only [found, others, nonempty, none, opened, joined, ne_eq, not_true_eq_false, if_false, ok_bind,
    pure_eq_ok]

/-- An answer consists of the openings of all layers but the last, and of the last one in natural order. -/
theorem Prover.answer_cases {prover : Prover field} {positions : List Int} {proof : Proof field}
    (answered : prover.answer positions = .ok proof) :
    ∃ last openings remainder, prover.layers.getLast? = some last ∧
      Prover.openLayers prover.options.foldingFactor prover.layers.dropLast positions prover.domainSize
        = .ok openings ∧
      joinRows last.evaluations prover.options.foldingFactor = .ok remainder ∧
      proof = ⟨openings, some remainder, prover.options.foldingFactor⟩ := by
  unfold Prover.answer at answered
  split at answered
  · rename_i last found
    split at answered
    · -- A query without positions is refused.
      simp at answered
    · dsimp only at answered
      split at answered
      · -- So is one with positions outside.
        simp at answered
      · -- No position lies outside, so only the steps themselves are left.
        obtain ⟨openings, opened, answered⟩ := bind_eq_ok_iff.mp answered
        obtain ⟨remainder, joined, answered⟩ := bind_eq_ok_iff.mp answered
        exact ⟨last, openings, remainder, found, opened, joined, (Except.ok.inj answered).symm⟩
  · -- Without a last layer nothing is sent.
    simp at answered

/-- An opening consists of the proof for some leaves, and of the rows at their places. -/
theorem Layer.query_cases {layer : Layer field hasher} {positions : List Int} {width : Nat}
    {opening : LayerOpening field} (queried : layer.query positions width = .ok opening) :
    layer.tree.proveBatch positions = .ok opening.proof ∧
      opening.values.height = positions.length ∧ opening.values.width = width := by
  -- A query asks for the proof, cuts the rows and selects some of them.
  obtain ⟨proof, issued, queried⟩ := bind_eq_ok_iff.mp queried
  obtain ⟨table, cut, queried⟩ := bind_eq_ok_iff.mp queried
  obtain ⟨selected, chosen, queried⟩ := bind_eq_ok_iff.mp queried
  obtain rfl := Except.ok.inj queried
  obtain ⟨height, same⟩ := Table.shape_of_select chosen
  refine ⟨issued, height.trans (List.length_map _), same.trans ?_⟩
  rw [← Int.ofNat_eq_natCast] at cut
  simp only [Layer.rows] at cut
  split at cut
  · -- Rows that have been cut are as wide as asked for.
    rename_i found
    obtain rfl := Except.ok.inj cut
    exact (Table.ofWidth?_eq_some_iff.mp found).2.2
  · -- A width that leaves a rest is refused.
    simp at cut

/-- Each of several layers is opened at the positions folded once more than for the layer before. -/
theorem Prover.openLayers_cases {layers : List (Layer field hasher)} {positions : List Int}
    {size factor : Nat} {openings : List (LayerOpening field)}
    (opened : Prover.openLayers factor layers positions size = .ok openings) :
    openings.length = layers.length ∧
      ∀ index (inside : index < openings.length), ∃ layer rows, layers[index]? = some layer ∧
        foldedPositions positions size factor (index + 1) = .ok rows ∧
        layer.query rows factor = .ok openings[index] := by
  -- The positions are folded for the layers behind the first, so they are quantified over.
  induction layers generalizing positions size openings with
  | nil =>
    obtain rfl := Except.ok.inj opened
    exact ⟨rfl, by simp⟩
  -- The first layer is opened at positions folded once.
  | cons layer rest ih =>
    obtain ⟨rows, once, opened⟩ := bind_eq_ok_iff.mp opened
    obtain ⟨opening, queried, opened⟩ := bind_eq_ok_iff.mp opened
    obtain ⟨others, tail, opened⟩ := bind_eq_ok_iff.mp opened
    obtain rfl := Except.ok.inj opened
    -- The other layers see the folded positions in the smaller domain.
    rw [← Int.ofNat_fdiv] at tail
    obtain ⟨length, each⟩ := ih tail
    refine ⟨congrArg (· + 1) length, fun index inside => ?_⟩
    cases index with
    | zero => exact ⟨layer, rows, rfl, foldedPositions_succ once 0, queried⟩
    | succ index =>
      obtain ⟨later, found, among, folded, again⟩ := each index (Nat.lt_of_succ_lt_succ inside)
      exact ⟨later, found, among, by rwa [foldedPositions_succ once], again⟩

/-- What is sent is the prover's answer, whatever is dropped afterwards. -/
theorem Prover.answer_of_prove {prover : Prover field} {positions : List Int} {proof : Proof field}
    (proved : (prover.prove positions).1 = .ok proof) : prover.answer positions = .ok proof := by
  unfold Prover.prove at proved
  split at proved
  · -- A proof is sent as it was made.
    rename_i sent answered
    rw [answered, ← proved]
  · -- What is refused is no proof.
    simp at proved

/-- Layers of rounds that lead to one another answer every list of positions in the first domain. -/
theorem Linked.prove_eq_ok {prover : Prover field} {offset : Element field}
    {channel after : Channel other others} {values : Array (Element field)}
    {rounds : List (Round prover.options prover.hasher other others)}
    (linked : Linked offset values channel rounds after) (held : 0 < rounds.length)
    {positions : List Int} (nonempty : positions ≠ [])
    (inside : ∀ position ∈ positions, 0 ≤ position ∧ position < values.size) :
    ∃ proof, ({ prover with layers := rounds.map Round.layer } : Prover field).prove positions
        = (.ok proof, prover.reset) ∧
      Answers rounds values.size positions proof := by
  -- All rounds but the last are opened.
  -- There is a last round, which is not opened but sent.
  obtain ⟨front, last, rfl⟩ := (List.eq_nil_or_concat' rounds).resolve_left
    (List.ne_nil_of_length_pos held)
  have sizes : ∀ index (inside : index < front.length), front[index].values.size
      = values.size / prover.options.foldingFactor ^ index := by
    intro index inside
    have within : index < (front ++ [last]).length := by
      rw [List.length_append]
      omega
    rw [← linked.size_values within, List.getElem_append_left inside]
  obtain ⟨openings, opened, length, each⟩ := openLayers_eq_ok nonempty sizes
  have domainSize := linked.domainSize_eq held
  -- The last one's values are joined back to the vector that it committed to.
  have answered := answer_eq_ok (List.map_append ..) nonempty (domainSize.symm ▸ inside)
    (domainSize.symm ▸ opened) (joinRows_of_splitRows last.splitRows_eq)
  refine ⟨_, by rw [Prover.prove, answered]; rfl, ?_, fun index inside => ?_, last, ?_, rfl⟩
  · -- One opening is made for each of the others.
    simp [length]
  · -- An opened round is at the same place among all rounds.
    have within : index < front.length := length ▸ inside
    obtain ⟨rows, opening, folded, names, listed, authentic⟩ := each index within
    refine ⟨front[index], rows, ?_, folded, names, ?_⟩
    · rw [List.getElem?_append_left within, List.getElem?_eq_getElem within]
    · rw [List.getElem?_eq_getElem inside, Option.some.injEq] at listed
      exact listed ▸ authentic
  · -- The remainder comes from the last round of all.
    exact List.getLast?_concat

/-- After a commit phase every list of positions in the first domain is answered. -/
theorem CommitPhase.prove_eq_ok {prover built : Prover field} {channel after : Channel other others}
    {values : Array (Element field)}
    {rounds : List (Round prover.options prover.hasher other others)}
    (phase : CommitPhase prover channel values rounds built after) {positions : List Int}
    (nonempty : positions ≠ [])
    (inside : ∀ position ∈ positions, 0 ≤ position ∧ position < values.size) :
    ∃ proof, built.prove positions = (.ok proof, built.reset) ∧
      Answers rounds values.size positions proof := by
  -- The prover holds the layers of its rounds.
  obtain rfl := phase.built_eq
  exact phase.linked.prove_eq_ok phase.length_pos nonempty inside

/-- Every opening belongs under the root absorbed in its round, and shows in order the rows that the
folded positions name; the remainder is the vector under the last root. -/
theorem openings_authenticate {prover built : Prover field} {channel after : Channel other others}
    {evaluations : Evaluations}
    (ran : prover.build channel evaluations = (.ok (), built, after)) {positions : List Int}
    (nonempty : positions ≠ [])
    (inside : ∀ position ∈ positions, 0 ≤ position ∧ position < built.domainSize) :
    ∃ values, ∃ rounds : List (Round prover.options prover.hasher other others), ∃ roots proof,
      evaluations.vector field = .ok values ∧
      Linked prover.options.domainOffset values channel rounds after ∧
      built = { prover with layers := rounds.map Round.layer } ∧
      after.commitments = channel.commitments ++ roots ∧
      (built.prove positions).1 = .ok proof ∧ proof.layers.length + 1 = roots.length ∧
      (∀ index (within : index < proof.layers.length), ∃ round root rows,
        rounds[index]? = some round ∧
        round.values.size = values.size / prover.options.foldingFactor ^ index ∧
        roots[index]? = some root ∧
        foldedPositions positions values.size prover.options.foldingFactor (index + 1) = .ok rows ∧
        proof.layers[index].Authenticates prover.hasher root round.values
          prover.options.foldingFactor rows) ∧
      ∃ remainder table leaves tree, proof.remainder = some remainder ∧
        splitRows remainder prover.options.foldingFactor = .ok table ∧
        hashRows prover.hasher table = .ok leaves ∧
        MerkleTree.ofLeaves prover.hasher leaves = .ok tree ∧ roots.getLast? = some tree.root := by
  -- A build that succeeds is a commit phase, and its layers answer the positions.
  obtain ⟨values, rounds, listed, phase⟩ := exists_commitPhase_of_build ran
  rw [phase.domainSize_eq] at inside
  obtain ⟨proof, proved, answers⟩ := phase.prove_eq_ok nonempty inside
  -- The roots absorbed are the rounds' own, and the last round's vector is the remainder.
  obtain ⟨last, final, remainder⟩ := answers.remainder
  refine ⟨values, rounds, rounds.map fun round => round.tree.root, proof, listed, phase.linked,
    phase.built_eq, phase.linked.commitments_eq, congrArg Prod.fst proved, ?_, fun index within => ?_,
    last.values, last.table, last.tree.leaves, last.tree, remainder, last.splitRows_eq,
    last.hashRows_eq, last.ofLeaves_eq, ?_⟩
  · -- There is one root for each round.
    rw [List.length_map, answers.length_layers]
  · -- The round that an opening belongs to has the root at the same place.
    obtain ⟨round, rows, found, folded, _, authenticates⟩ := answers.opened index within
    obtain ⟨among, rfl⟩ := List.getElem?_eq_some_iff.mp found
    exact ⟨_, _, rows, found, phase.linked.size_values among, by rw [List.getElem?_map, found]; rfl,
      folded, authenticates⟩
  · -- The last root is that of the last round's tree.
    rw [List.getLast?_map, final]
    rfl

/-- Two rounds over sixteen values are opened at three positions, two of them in one row. -/
theorem openings_authenticate_two_rounds :
    ∃ proof, ((foursProver.build freshChannel sixteenValues).2.1.prove [13, 2, 1]).1 = .ok proof ∧
      proof.layers.length + 1 = 2 := by
  -- The build has absorbed two roots, and its domain has sixteen points.
  have roots : (foursProver.build freshChannel sixteenValues).2.2.commitments.length = 2 := by
    decide +kernel
  have inside : ∀ position ∈ ([13, 2, 1] : List Int), 0 ≤ position ∧
      position < (foursProver.build freshChannel sixteenValues).2.1.domainSize := by
    rw [domainSize_foursProver]
    decide
  obtain ⟨_, _, _, proof, _, _, _, commitments, proved, length, _⟩ :=
    openings_authenticate build_foursProver (by decide) inside
  refine ⟨proof, proved, ?_⟩
  -- The channel had absorbed none before.
  rw [length, ← roots, commitments]
  simp [freshChannel, Channel.ofSeed]

end Proximity
