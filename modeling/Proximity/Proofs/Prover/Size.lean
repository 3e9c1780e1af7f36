import Mathlib
import Proximity.Proofs.Hash.Encoding
import Proximity.Proofs.Merkle.Coverage
import Proximity.Proofs.Prover.Rows

/-! How many bytes a proof takes: that is told by the sizes of the layers and by the positions, and by
nothing that was committed to. -/

namespace Proximity

variable {field : PrimeField} {hasher : Hasher} {prover : Prover field} {size : Nat}
  {positions : List Int} {proof : Proof field}

/-- The rows that positions stand in, in a domain folded to so many points. -/
def foldedRows (positions : List Int) (rows : Nat) : Finset Nat :=
  positions.toFinset.image fun position => (position % (rows : Int)).toNat

/-- The nodes of a level above some leaves that are there without their siblings. -/
def unpaired (leaves : Finset Nat) (level : Nat) : Finset Nat :=
  (leaves.image (· >>> level)).filter fun index => index ^^^ 1 ∉ leaves.image (· >>> level)

/-- What an opening shows without its contents. -/
structure OpeningShape where
  height : Nat
  width : Nat
  depth : Int
  /-- How many digests stand on each level. -/
  digests : List Nat
deriving DecidableEq, Repr

/-- How many bytes an opening of a shape takes. -/
def OpeningShape.sizeInBytes (shape : OpeningShape) (elementSize digestSize : Nat) : Nat :=
  shape.height * shape.width * elementSize + shape.digests.sum * digestSize

/-- The shape of an opening. -/
def LayerOpening.shape (opening : LayerOpening field) : OpeningShape where
  height := opening.values.height
  width := opening.values.width
  depth := opening.proof.depth
  digests := opening.proof.nodes.map List.length

/-- The shape that positions lead to, in a layer that has been folded so often before. -/
def openingShape (factor size : Nat) (positions : List Int) (folds : Nat) : OpeningShape where
  height := (foldedRows positions (size / factor ^ (folds + 1))).card
  width := factor
  depth := (size / factor ^ (folds + 1)).log2
  digests := (List.range (size / factor ^ (folds + 1)).log2).map fun level =>
    (unpaired (foldedRows positions (size / factor ^ (folds + 1))) level).card

/-- How many bytes a proof takes for positions in a domain that is folded so often: the remainder, the rows
that are opened in each layer, and the digests for their unpaired nodes. -/
def proofBytes (factor folds size : Nat) (positions : List Int) (elementSize digestSize : Nat) : Nat :=
  elementSize * (size / factor ^ folds
      + factor * ∑ fold ∈ Finset.range folds, (foldedRows positions (size / factor ^ (fold + 1))).card)
    + digestSize * ∑ fold ∈ Finset.range folds,
      ∑ level ∈ Finset.range (size / factor ^ (fold + 1)).log2,
        (unpaired (foldedRows positions (size / factor ^ (fold + 1))) level).card

/-- One digest is supplied for each node without its sibling. -/
theorem card_nodesBeside_eq {depth level : Nat} {places : List Nat}
    (inside : ∀ place ∈ places, place < 2 ^ depth) (within : level < depth) :
    (nodesBeside depth places level).card = (unpaired places.toFinset level).card := by
  -- Shifting an index is halving it once for each level.
  have shifted : places.toFinset.image (· >>> level) = nodesAbove places level := by
    ext index
    simp [mem_nodesAbove, Nat.shiftRight_eq_div_pow]
  -- The level's nodes are in order already, so what they lack is listed in both ways.
  have lacking := absentSiblings_eq_map_sort (nodesAbove places level).sort
  rw [ascending_sort, Finset.sort_toFinset, absentSiblings_sort inside within] at lacking
  rw [unpaired, shifted, ← Finset.length_sort (· ≤ ·), lacking, List.length_map, Finset.length_sort]

/-- An opening takes as many bytes as its shape, if all digests have the same size. -/
theorem LayerOpening.sizeInBytes_eq (opening : LayerOpening field) {digestSize : Nat}
    (digests : ∀ level ∈ opening.proof.nodes, ∀ digest ∈ level, digest.length = digestSize)
    (elementSize : Nat) :
    opening.sizeInBytes elementSize = opening.shape.sizeInBytes elementSize digestSize := by
  -- Lengths that are all the same add up to their number times one of them.
  have each : ∀ length ∈ opening.proof.nodes.flatten.map List.length, length = digestSize := by
    intro length listed
    obtain ⟨digest, among, rfl⟩ := List.mem_map.mp listed
    obtain ⟨level, within, member⟩ := List.mem_flatten.mp among
    exact digests level within digest member
  -- Rows take a cell for each value, and levels a digest for each member.
  rw [LayerOpening.sizeInBytes, foldr_add_eq_sum, List.sum_eq_card_nsmul _ _ each, List.length_map,
    List.length_flatten, opening.values.size_cells, smul_eq_mul]
  rfl

/-- The shape of an opening is told by the rows that are opened and by the depth of the tree. -/
theorem Layer.shape_of_query {layer : Layer field hasher} {rows : List Int} {width : Nat}
    {opening : LayerOpening field} (queried : layer.query rows width = .ok opening) :
    opening.shape = ⟨(rows.map Int.toNat).toFinset.card, width, layer.tree.depth,
      (List.range layer.tree.depth).map fun level =>
        (unpaired (rows.map Int.toNat).toFinset level).card⟩ := by
  -- A layer is queried by a batched proof for the rows, which are then selected.
  obtain ⟨issued, height, same⟩ := Layer.query_cases queried
  obtain ⟨names, whole⟩ := layer.tree.proveBatch_eq_ok_iff.mp issued
  have nodes := layer.tree.nodes_of_proveBatch issued
  -- A level lists one digest for each of its nodes without a sibling.
  have counts : opening.proof.nodes.map List.length = (List.range layer.tree.depth).map fun level =>
      (unpaired (rows.map Int.toNat).toFinset level).card := by
    rw [nodes, List.map_map]
    refine List.map_congr_left fun level within => ?_
    rw [Function.comp_apply, List.length_map, Finset.length_sort,
      card_nodesBeside_eq names.place_lt (List.mem_range.mp within)]
  -- There are as many rows as different indexes, as a proof for repeated ones is not issued.
  rw [List.toFinset_card_of_nodup names.nodup_places, List.length_map, LayerOpening.shape, height, same,
    counts, whole]

/-- Digests that are supplied have the size of the leaves' digests. -/
theorem Layer.length_digest_of_query {layer : Layer field hasher}
    (leaves : ∀ leaf ∈ layer.tree.leaves, leaf.length = hasher.digestSize) {rows : List Int}
    {width : Nat} {opening : LayerOpening field} (queried : layer.query rows width = .ok opening) :
    ∀ level ∈ opening.proof.nodes, ∀ digest ∈ level, digest.length = hasher.digestSize := by
  -- The digests that are supplied are nodes of the layer's tree.
  obtain ⟨issued, _, _⟩ := Layer.query_cases queried
  rw [layer.tree.nodes_of_proveBatch issued]
  intro listed among digest member
  obtain ⟨level, within, rfl⟩ := List.mem_map.mp among
  obtain ⟨index, beside, rfl⟩ := List.mem_map.mp member
  -- What stands beside nodes of the tree is a node of the tree.
  have below := (Finset.mem_filter.mp ((Finset.mem_sort _).mp beside)).1
  exact layer.tree.length_node leaves (List.mem_range.mp within).le (Finset.mem_range.mp below)

/-- A committed layer has a tree over as many leaves as rows, with digests for leaves. -/
theorem Layer.Commits.tree_eq {layer : Layer field hasher} {factor : Nat}
    (commits : layer.Commits factor size) :
    2 ^ layer.tree.depth = size / factor ∧
      ∀ leaf ∈ layer.tree.leaves, leaf.length = hasher.digestSize := by
  -- There is one leaf for each row.
  refine ⟨layer.tree.leafCount_eq.symm.trans commits.leafCount_tree, ?_⟩
  obtain ⟨table, _, hashed⟩ := commits.leaves_tree
  -- Every leaf is the hash of a row.
  rw [hashRows_eq_ok, Except.ok.injEq] at hashed
  rw [← hashed, List.forall_mem_map]
  exact fun _ _ => hasher.length_digest _

namespace Prover

/-- Each opening that is sent is one of a layer that commits to what is left of the domain. -/
theorem CommitsOver.opening_cases (commits : prover.CommitsOver size)
    (proved : (prover.prove positions).1 = .ok proof) :
    proof.layers.length + 1 = prover.layers.length ∧
      ∀ index (inside : index < proof.layers.length),
        ∃ (layer : Layer field prover.hasher) (rows : List Int),
          layer.Commits prover.options.foldingFactor (size / prover.options.foldingFactor ^ index) ∧
          foldedPositions positions size prover.options.foldingFactor (index + 1) = .ok rows ∧
          layer.query rows prover.options.foldingFactor = .ok proof.layers[index] := by
  -- The openings are those of the layers, at positions folded once for each round.
  obtain ⟨length, opened⟩ := Prover.opening_cases proved
  refine ⟨length, fun index inside => ?_⟩
  obtain ⟨layer, rows, listed, folded, queried⟩ := opened index inside
  obtain ⟨among, rfl⟩ := List.getElem?_eq_some_iff.mp listed
  -- The domain that the positions are folded in is the one committed to.
  rw [commits.domainSize_eq (Nat.zero_lt_of_lt among)] at folded
  exact ⟨_, rows, commits index among, folded, queried⟩

/-- An opening that is sent has the shape that the positions lead to, and takes as many bytes. -/
theorem Begun.opening_of_prove (begun : prover.Begun size)
    (proved : (prover.prove positions).1 = .ok proof) {index : Nat}
    (inside : index < proof.layers.length) :
    proof.layers[index].shape = openingShape prover.options.foldingFactor size positions index ∧
      ∀ elementSize, proof.layers[index].sizeInBytes elementSize
        = proof.layers[index].shape.sizeInBytes elementSize prover.hasher.digestSize := by
  obtain ⟨length, opened⟩ := begun.commits.opening_cases proved
  obtain ⟨layer, rows, commits, folded, queried⟩ := opened index inside
  -- The tree has a leaf for each row that is left of the domain.
  obtain ⟨leaves, digests⟩ := commits.tree_eq
  rw [Nat.div_div_eq_div_mul, ← pow_succ] at leaves
  refine ⟨?_, fun elementSize => LayerOpening.sizeInBytes_eq _
    (Layer.length_digest_of_query digests queried) elementSize⟩
  -- The layer's domain is folded once more, to the rows that the positions name.
  obtain ⟨room, divides⟩ := begun.fold (show index < prover.layers.length by omega)
  rw [foldedPositions_succ_eq_ok room divides, Except.ok.injEq] at folded
  -- Folding once for each round names the rows that folding at once names.
  have places : (rows.map Int.toNat).toFinset
      = foldedRows positions (size / prover.options.foldingFactor ^ (index + 1)) := by
    ext place
    simp [foldedRows, ← folded]
  rw [Layer.shape_of_query queried, openingShape, places, ← leaves, Nat.log2_two_pow]

/-- One opening is sent for each fold, in the shape that the positions lead to. -/
theorem Begun.shapes_of_prove (begun : prover.Begun size)
    (proved : (prover.prove positions).1 = .ok proof) {folds : Nat}
    (held : prover.layers.length = folds + 1) :
    proof.layers.map LayerOpening.shape
      = (List.range folds).map (openingShape prover.options.foldingFactor size positions) := by
  obtain ⟨length, -⟩ := begun.commits.opening_cases proved
  -- There are as many openings as folds, and each has the shape of its index.
  refine List.ext_getElem ?_ fun index inside _ => ?_
  · rw [List.length_map, List.length_map, List.length_range]
    omega
  · rw [List.length_map] at inside
    rw [List.getElem_map, List.getElem_map, List.getElem_range, (begun.opening_of_prove proved inside).1]

/-- The remainder and the openings together take the bytes that the positions lead to. -/
theorem Begun.sizeInBytes_of_prove (begun : prover.Begun size)
    (proved : (prover.prove positions).1 = .ok proof) {folds : Nat}
    (held : prover.layers.length = folds + 1) (encoding : PrimeField) :
    proof.remainder.map Array.size = some (size / prover.options.foldingFactor ^ folds) ∧
      proof.sizeInBytes encoding = .ok (proofBytes prover.options.foldingFactor folds size positions
        encoding.byteLength prover.hasher.digestSize) := by
  -- The remainder is the last layer as it is.
  obtain ⟨last, remainder, found, sent, sized⟩ := remainder_of_answer (answer_of_prove proved)
  obtain ⟨_, same, left⟩ := begun.size_last found
  obtain rfl := Nat.add_right_cancel (held.symm.trans same)
  rw [← sized] at left
  refine ⟨by rw [sent, Option.map_some, left], ?_⟩
  -- Every opening takes the bytes of its shape.
  have each : proof.layers.map (LayerOpening.sizeInBytes · encoding.byteLength)
      = (proof.layers.map LayerOpening.shape).map
          (OpeningShape.sizeInBytes · encoding.byteLength prover.hasher.digestSize) := by
    rw [List.map_map]
    refine List.map_congr_left fun opening member => ?_
    obtain ⟨index, inside, rfl⟩ := List.getElem_of_mem member
    exact (begun.opening_of_prove proved inside).2 _
  -- The size is the remainder's and that of all openings.
  rw [Proof.sizeInBytes, sent]
  simp only [foldr_add_eq_sum]
  rw [each, begun.shapes_of_prove proved held, List.map_map, sum_map_range, left]
  -- What all rows and all digests take is summed up by itself.
  simp only [Function.comp_apply, OpeningShape.sizeInBytes, openingShape, sum_map_range,
    Finset.sum_add_distrib, ← Finset.sum_mul, proofBytes]
  congr 1
  ring

/-- A proof that comes out of both phases: a vector of some size is committed to, and some positions are
answered. -/
def Sends (prover : Prover field) (size : Nat) (positions : List Int) (proof : Proof field) : Prop :=
  ∃ (other : PrimeField) (others : Hasher) (channel after : Channel other others)
      (evaluations : Evaluations) (values : Array (Element field)) (built : Prover field),
    evaluations.Forms values ∧ values.size = size ∧
      prover.build channel evaluations = (.ok (), built, after) ∧
      (built.prove positions).1 = .ok proof

/-- A proof out of both phases has the shape and the size that the options, the number of values and the
positions lead to. -/
theorem Sends.shape_eq (sends : prover.Sends size positions proof) :
    proof.layers.map LayerOpening.shape = (List.range (prover.options.numLayers size)).map
        (openingShape prover.options.foldingFactor size positions) ∧
      proof.remainder.map Array.size
        = some (size / prover.options.foldingFactor ^ prover.options.numLayers size) ∧
      ∀ encoding, proof.sizeInBytes encoding = .ok (proofBytes prover.options.foldingFactor
        (prover.options.numLayers size) size positions encoding.byteLength prover.hasher.digestSize) := by
  obtain ⟨_, _, channel, after, evaluations, values, built, forms, rfl, ran, proved⟩ := sends
  -- The build has gone through a commit phase on the vector, and holds its layers.
  obtain ⟨rounds, phase⟩ := forms.exists_commitPhase ran
  have begun := phase.begun
  have held := phase.complete.length_eq
  obtain rfl := phase.built_eq
  -- Those layers are complete, so there are as many folds as the options say.
  have total := begun.sizeInBytes_of_prove proved held
  exact ⟨begun.shapes_of_prove proved held, (total field).1, fun encoding => (total encoding).2⟩

/-- Evaluations that are accepted and committed to are followed by a proof for every list of positions among
them. -/
theorem exists_sends {other : PrimeField} {others : Hasher} {channel : Channel other others}
    {evaluations : Evaluations} {values : Array (Element field)}
    (accepted : prover.accept evaluations = .ok values) (sized : values.size = size)
    (passed : (prover.build channel evaluations).1 = .ok ()) (nonempty : positions ≠ [])
    (inside : ∀ position ∈ positions, 0 ≤ position ∧ position < size) :
    ∃ proof, prover.Sends size positions proof := by
  -- What is accepted is the vector that the evaluations form.
  have forms := vector_eq_ok_iff.mp (accept_eq_ok_iff.mp accepted).2.1
  have ran : prover.build channel evaluations = (.ok (), _, _) := Prod.ext passed rfl
  obtain ⟨rounds, phase⟩ := forms.exists_commitPhase ran
  -- Positions among the values are answered, as all layers are held.
  obtain ⟨proof, proved, _⟩ := phase.prove_eq_ok nonempty (sized.symm ▸ inside)
  exact ⟨proof, _, _, channel, _, evaluations, values, _, forms, sized, ran, congrArg Prod.fst proved⟩

/-- What a proof shows of its size tells nothing of what was committed to. Two runs with the same factor, the
same limit, as many values and the same positions end in proofs with openings of the same shapes, down to
the number of digests on each level, with remainders of the same length, and of the same number of bytes, if
both hash functions have digests of 32 bytes, as the supported ones have. -/
theorem proof_size_public {first second : Prover field} {size : Nat} {positions : List Int}
    {sent other : Proof field}
    (factor : second.options.foldingFactor = first.options.foldingFactor)
    (limit : second.options.maxRemainderSize = first.options.maxRemainderSize)
    (firstDigests : first.hasher.digestSize = 32) (secondDigests : second.hasher.digestSize = 32)
    (firstSends : first.Sends size positions sent) (secondSends : second.Sends size positions other) :
    sent.layers.map LayerOpening.shape = other.layers.map LayerOpening.shape ∧
      sent.remainder.map Array.size
        = some (size / first.options.foldingFactor ^ first.options.numLayers size) ∧
      other.remainder.map Array.size = sent.remainder.map Array.size ∧
      ∀ encoding,
        sent.sizeInBytes encoding = .ok (proofBytes first.options.foldingFactor
          (first.options.numLayers size) size positions encoding.byteLength 32) ∧
        other.sizeInBytes encoding = sent.sizeInBytes encoding := by
  -- Either run is told by its own options, and these are the same where they matter.
  have rounds := Options.numLayers_congr factor limit size
  obtain ⟨shapes, remainder, bytes⟩ := firstSends.shape_eq
  obtain ⟨otherShapes, otherRemainder, otherBytes⟩ := secondSends.shape_eq
  rw [factor, rounds] at otherShapes otherRemainder
  -- Both digests have 32 bytes, the length that the formula takes.
  simp only [factor, rounds, secondDigests] at otherBytes
  simp only [firstDigests] at bytes
  exact ⟨shapes.trans otherShapes.symm, remainder, otherRemainder.trans remainder.symm,
    fun encoding => ⟨bytes encoding, (otherBytes encoding).trans (bytes encoding).symm⟩⟩

/-- The sum of all bytes as the first byte of a digest of 32. -/
def paddedChecksum : Hasher where
  name := "padded checksum"
  digestSize := 32
  digest data := data.sum :: List.replicate 31 0
  length_digest _ := rfl

/-- A prover that folds four values into one on domains that are not shifted. -/
def unshiftedProver : Prover seventeen where
  options := { foursProver.options with domainOffset := 1, domainOffset_ne_zero := by decide }
  hasher := paddedChecksum

/-- Ones committed to with a supported hash function and other values committed to on another domain lead to
proofs of one size for three positions: four values are left, two rows of four are opened without their
siblings, and the parents of these rows are siblings themselves. -/
theorem proof_size_public_two_runs :
    ∃ sent other,
      (fresh foursProver.options Hasher.blake2s).Sends 16 [13, 2, 1] sent ∧
      unshiftedProver.Sends 16 [13, 2, 1] other ∧
      sent.sizeInBytes seventeen = .ok (4 + 2 * 4 + 2 * 32) ∧
      other.sizeInBytes seventeen = sent.sizeInBytes seventeen := by
  -- Both vectors are accepted, and no round is refused.
  have ones : (fresh foursProver.options Hasher.blake2s).accept sixteenOnes
      = .ok (Array.replicate 16 1) := by decide +kernel
  have passed : ((fresh foursProver.options Hasher.blake2s).build freshChannel sixteenOnes).1 = .ok () := by
    decide +kernel
  have values : unshiftedProver.accept sixteenValues = .ok sixteenElements := by decide +kernel
  have passedToo : (unshiftedProver.build (.ofSeed seventeen checksum [1]) sixteenValues).1 = .ok () := by
    decide +kernel
  have some : ([13, 2, 1] : List Int) ≠ [] := by decide
  -- Three positions of sixteen are asked for.
  have inside : ∀ position ∈ ([13, 2, 1] : List Int), 0 ≤ position ∧ position < (16 : Nat) := by
    decide
  obtain ⟨sent, sends⟩ := exists_sends ones Array.size_replicate passed some inside
  obtain ⟨other, sendsToo⟩ := exists_sends values (by simp [sixteenElements]) passedToo some inside
  obtain ⟨-, -, -, bytes⟩ := proof_size_public (by rfl) (by rfl) (by rfl) (by rfl) sends sendsToo
  refine ⟨sent, other, sends, sendsToo, ?_, (bytes seventeen).2⟩
  -- The formula is computed for sixteen values.
  rw [(bytes seventeen).1]
  decide +kernel

end Prover

end Proximity
