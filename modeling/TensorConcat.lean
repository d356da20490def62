import TensorConcat.Backend.Host
import TensorConcat.Conformance.Scenario
import TensorConcat.Proofs.Coordinates
import TensorConcat.Proofs.Reordering
import TensorConcat.Proofs.Packing
import TensorConcat.Proofs.Walking
import TensorConcat.Proofs.Writing
import TensorConcat.Proofs.Copying
import TensorConcat.Proofs.Joining
import TensorConcat.Proofs.Running
import TensorConcat.Proofs.SlabFilling
import TensorConcat.Proofs.IndexMapping
import TensorConcat.Proofs.GridStride
import TensorConcat.Proofs.LaunchTrace
import TensorConcat.Proofs.BatchTrace
import TensorConcat.Proofs.Batching
import TensorConcat.Proofs.Separation
import TensorConcat.Proofs.Engines
import TensorConcat.Proofs.PathIndependence
import TensorConcat.Proofs.Interleaving
import TensorConcat.Proofs.Parity
import TensorConcat.Proofs.Interference
import TensorConcat.Proofs.LaunchSafety
import TensorConcat.Proofs.Aliasing
import TensorConcat.Proofs.Growth
import TensorConcat.Proofs.Provenance
import TensorConcat.Proofs.Budget
import TensorConcat.Proofs.Confinement
import TensorConcat.Proofs.Acceptance
import TensorConcat.Proofs.Steadiness
import TensorConcat.Proofs.Blame
import TensorConcat.Proofs.Routes
import TensorConcat.Proofs.Containment
import TensorConcat.Proofs.Programs
import TensorConcat.Proofs.ReadingOut
import TensorConcat.Proofs.NewOutputs
import TensorConcat.Proofs.Splitting
import TensorConcat.Proofs.Conversion
import TensorConcat.Proofs.Promotion
import TensorConcat.Proofs.Chunking
import TensorConcat.Proofs.Admission
import TensorConcat.Proofs.Skipping
import TensorConcat.Proofs.Placement
import TensorConcat.Proofs.Sessions
import TensorConcat.Proofs.Density
import TensorConcat.Proofs.Overlapping
import TensorConcat.Proofs.LinearAddressing
import TensorConcat.Proofs.StridedCopy
import TensorConcat.Proofs.ViewChains
import TensorConcat.Proofs.LaunchItems
import TensorConcat.Proofs.Looping
import TensorConcat.Proofs.Cutting
import TensorConcat.Proofs.Lossless
import TensorConcat.Proofs.LayingOut
