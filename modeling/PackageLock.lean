import PackageLock.Main
import PackageLock.Proofs.Command.Confinement
import PackageLock.Proofs.Command.Reporting
import PackageLock.Proofs.Command.Tracing
import PackageLock.Proofs.Constraint.Composition
import PackageLock.Proofs.Constraint.Exactness
import PackageLock.Proofs.Constraint.Grammar
import PackageLock.Proofs.Constraint.Layout
import PackageLock.Proofs.Constraint.Reflexivity
import PackageLock.Proofs.Graph.Listing
import PackageLock.Proofs.Graph.Mirror
import PackageLock.Proofs.Graph.Operations
import PackageLock.Proofs.Graph.Rebuilding
import PackageLock.Proofs.Graph.Refusal
import PackageLock.Proofs.Graph.Tracing
import PackageLock.Proofs.Graph.Upserts
import PackageLock.Proofs.Reference
import PackageLock.Proofs.Reference.RoundTrip
import PackageLock.Proofs.Resolution.Alike
import PackageLock.Proofs.Resolution.Effect
import PackageLock.Proofs.Resolution.Fleet
import PackageLock.Proofs.Resolution.Provoked
import PackageLock.Proofs.Resolution.Removal
import PackageLock.Proofs.Resolution.Reordering
import PackageLock.Proofs.Resolution.Repetition
import PackageLock.Proofs.Resolution.Serialisability
