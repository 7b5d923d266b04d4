import AtomicGrid.Cluster
import AtomicGrid.CommandLine
import AtomicGrid.Data.Messages
import AtomicGrid.Data.Requests
import AtomicGrid.Host
import AtomicGrid.Main
import AtomicGrid.Proofs.Failure.Newest
import AtomicGrid.Proofs.Fanout.Replies
import AtomicGrid.Proofs.Grid.NearWrites
import AtomicGrid.Proofs.Grid.Relay
import AtomicGrid.Proofs.Grid.Replicas
import AtomicGrid.Proofs.Grid.Retries
import AtomicGrid.Proofs.Grid.Settled
import AtomicGrid.Proofs.Grid.Success
import AtomicGrid.Proofs.Grid.Versions
import AtomicGrid.Proofs.Inbox
import AtomicGrid.Proofs.NearCache
import AtomicGrid.Proofs.Node.Budget
import AtomicGrid.Proofs.Node.Inquiry
import AtomicGrid.Proofs.Node.Outcomes
import AtomicGrid.Proofs.Node.Readiness
import AtomicGrid.Proofs.Node.Repeats
import AtomicGrid.Proofs.Node.Replication
import AtomicGrid.Proofs.Node.Requests
import AtomicGrid.Proofs.Node.Writes
import AtomicGrid.Proofs.Simulation
import AtomicGrid.Proofs.Store.Expiry
import AtomicGrid.Proofs.Store.Frame
import AtomicGrid.Proofs.Store.Newest
import AtomicGrid.Proofs.Store.Replay
import AtomicGrid.Proofs.Submission.Command
import AtomicGrid.Proofs.Submission.Finish
import AtomicGrid.Proofs.Wire.Buffers
import AtomicGrid.Proofs.Wire.Extent
import AtomicGrid.Proofs.Wire.Pieces
