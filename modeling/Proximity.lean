import Proximity.Fault
import Proximity.Text.Hex
import Proximity.Field.Catalogue
import Proximity.Field.Roots
import Proximity.Field.Inversion
import Proximity.Hash.Encoding
import Proximity.Field.Reading
import Proximity.Layout
import Proximity.Positions
import Proximity.Merkle.Path
import Proximity.Merkle.Verify
import Proximity.Transcript.Channel
import Proximity.Projection
import Proximity.Options
import Proximity.Prover
import Proximity.Proof.Export
import Proximity.Proof.Import
import Proximity.Proofs.Merkle.Binding
import Proximity.Proofs.Prover.Consistency
import Proximity.Proofs.Transcript.Binding
import Proximity.Proofs.Transcript.Freshness
import Proximity.Proofs.Transcript.Replay
import Proximity.Proofs.Hash.Encoding
import Proximity.Proofs.Prover.Binding
import Proximity.Proofs.Prover.Chain
import Proximity.Proofs.Prover.Lifecycle
import Proximity.Proofs.Prover.Outcome
import Proximity.Proofs.Proof.RoundTrip
import Proximity.Proofs.Projection.Degree
import Proximity.Proofs.Merkle.Labelling
import Proximity.Proofs.Merkle.Coverage
import Proximity.Proofs.Merkle.Path
import Proximity.Proofs.Prover.Answer
import Proximity.Proofs.Prover.Size
import Proximity.Proofs.Prover.Lengths
import Proximity.Proofs.Transcript.Distinct
import Proximity.Proofs.Transcript.Uniformity
import Proximity.Proofs.Merkle.Blocks
import Proximity.Proofs.Field.Generator
import Proximity.Proofs.Prover.Rows
