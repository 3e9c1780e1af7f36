import Proximity.Layout
import Proximity.Options
import Proximity.Projection
import Proximity.Proof
import Proximity.Transcript.Channel

/-! The prover: a commit phase that leaves layers behind, and a query phase that opens and drops them. -/

namespace Proximity

/-- A prover with the layers of a commit phase that has not been opened yet, the largest first. -/
structure Prover (field : PrimeField) where
  options : Options field
  hasher : Hasher
  layers : List (Layer field hasher) := []

/-- Evaluations as they are handed to a prover. -/
inductive Evaluations where
  /-- Integers that the prover reads in its own field. -/
  | plain (values : Nested)
  /-- Elements of some field. -/
  | elements {field : PrimeField} (values : Tensor field)

/-- The folding factors that commitment is offered for. -/
def supportedFactors : List Nat := [4, 8, 16]

/-- The elements that evaluations stand for, unless they belong to another field. -/
def Evaluations.read (evaluations : Evaluations) (field : PrimeField) :
    Except Fault (Tensor field) :=
  match evaluations with
  | .plain values => readTensor field values
  | @elements given values =>
    if same : given = field then .ok (same ▸ values)
    else .error (.foreignField given.name field.name)

/-- One value of a tensor's only dimension after the other. -/
def Tensor.vector {field : PrimeField} (tensor : Tensor field) :
    Except Fault (Array (Element field)) :=
  match tensor.shape with
  | [_] => .ok tensor.cells
  | shape => .error (.notVector shape)

namespace Prover

variable {field : PrimeField}

/-- The roots of the layers that are held. -/
def roots (prover : Prover field) : List Bytes :=
  prover.layers.map fun layer => layer.tree.root

/-- The size of the first layer's domain, or zero without layers. -/
def domainSize (prover : Prover field) : Nat :=
  match prover.layers.head? with
  | some first => first.evaluations.size
  | none => 0

/-- The prover without layers. -/
def reset (prover : Prover field) : Prover field :=
  { prover with layers := [] }

/-- The layer with an index among those held; a negative one counts back from the end. -/
def layer (prover : Prover field) (index : Int) : Except Fault (Layer field prover.hasher) :=
  let found := match index with
    | .ofNat place => prover.layers[place]?
    | .negSucc place => prover.layers.reverse[place]?
  match found with
  | some layer => .ok layer
  | none => .error .layerOutOfRange

/-- The vector to commit to, with everything checked that can be told before the first round. -/
def accept (prover : Prover field) (evaluations : Evaluations) :
    Except Fault (Array (Element field)) := do
  if prover.layers ≠ [] then throw .proofPending
  let tensor ← evaluations.read field
  let values ← tensor.vector
  if ¬values.size.isPowerOfTwo then throw (.evaluationCount values.size)
  -- The domains of later rounds divide the first, so one root of unity stands for all.
  let _ ← rootOfUnity field values.size
  let rounds := prover.options.numLayers values.size + 1
  if values.size % Nat.pow prover.options.foldingFactor rounds ≠ 0 then
    throw (.unfoldable values.size rounds prover.options.foldingFactor)
  return values

/-- The rows of a round and the tree over their digests. -/
def commitRows (options : Options field) (hasher : Hasher) (values : Array (Element field)) :
    Except Fault (Table (Element field) × MerkleTree hasher) := do
  if options.foldingFactor ∉ supportedFactors then
    throw (.unsupportedFactor options.foldingFactor)
  let table ← splitRows values options.foldingFactor
  let leaves ← hashRows hasher table
  let tree ← MerkleTree.ofLeaves hasher leaves
  return (table, tree)

variable {other : PrimeField} {others : Hasher}

/-- One round: the rows are committed to, a challenge is drawn, and the rows are folded at it. -/
def commitLayer (options : Options field) (hasher : Hasher) (offset : Element field)
    (values : Array (Element field)) (channel : Channel other others) :
    Except Fault (Layer field hasher × Array (Element field)) × Channel other others :=
  match commitRows options hasher values with
  | .error fault => (.error fault, channel)
  | .ok (table, tree) =>
    -- The challenge is drawn only after the root it binds to.
    let (drawn, channel) := (channel.commit tree.root).drawChallenge
    (do
      let challenge ← drawn
      let folded ← projectRows table offset.value challenge.value
      return ({ tree, evaluations := table.cells }, folded),
     channel)

/-- Several rounds, each on the fold of the one before; layers of rounds before a refusal are kept. -/
def commitLayers (options : Options field) (hasher : Hasher) :
    (rounds : Nat) → (offset : Element field) → (values : Array (Element field)) →
    (channel : Channel other others) →
    Except Fault Unit × List (Layer field hasher) × Channel other others
  | 0, _, _, channel => (.ok (), [], channel)
  | rounds + 1, offset, values, channel =>
    match commitLayer options hasher offset values channel with
    | (.error fault, channel) => (.error fault, [], channel)
    | (.ok (layer, folded), channel) =>
      let (outcome, layers, channel) :=
        commitLayers options hasher rounds (offset ^ options.foldingFactor) folded channel
      (outcome, layer :: layers, channel)

/-- The commit phase: as many rounds as it takes to fit the remainder, and one for the remainder. -/
def build (prover : Prover field) (channel : Channel other others) (evaluations : Evaluations) :
    Except Fault Unit × Prover field × Channel other others :=
  match prover.accept evaluations with
  | .error fault => (.error fault, prover, channel)
  | .ok values =>
    let rounds := prover.options.numLayers values.size + 1
    let (outcome, layers, channel) :=
      commitLayers prover.options prover.hasher rounds prover.options.domainOffset values channel
    (outcome, { prover with layers }, channel)

/-- The openings of some layers, at positions folded once for each of them. -/
def openLayers {hasher : Hasher} (factor : Int) :
    (layers : List (Layer field hasher)) → (positions : List Int) → (domainSize : Int) →
    Except Fault (List (LayerOpening field))
  | [], _, _ => .ok []
  | layer :: rest, positions, domainSize => do
    let folded ← foldPositions positions domainSize factor
    let opening ← layer.query folded factor
    let openings ← openLayers factor rest folded (domainSize.fdiv factor)
    return opening :: openings

/-- The proof for some positions in the first layer's domain. -/
def answer (prover : Prover field) (positions : List Int) : Except Fault (Proof field) :=
  match prover.layers.getLast? with
  | some last => do
    if positions = [] then throw .noQueryPosition
    let size := prover.domainSize
    let outside := positions.filter fun position => position < 0 || (size : Int) ≤ position
    if outside ≠ [] then throw (.positionsOutOfRange outside size)
    let factor := prover.options.foldingFactor
    let layers ← openLayers factor prover.layers.dropLast positions size
    -- The last layer is sent as it is, in natural order.
    let remainder ← joinRows last.evaluations factor
    return { layers, remainder := some remainder, foldingFactor := factor }
  | none => .error .nothingCommitted

/-- The query phase: the layers are dropped once they have been opened. -/
def prove (prover : Prover field) (positions : List Int) :
    Except Fault (Proof field) × Prover field :=
  match prover.answer positions with
  | .ok proof => (.ok proof, prover.reset)
  | .error fault => (.error fault, prover)

end Prover

end Proximity
