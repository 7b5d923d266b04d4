import AtomicGrid.Cluster

/-!
# Simulated writes

Model of `run_simulate`.  A `Simulation` writes keys one after the other to a cluster, each
from the next of the running nodes, and takes out a node halfway if it is told to.  Its `Report`
counts the writes that succeeded and failed, and the keys whose value is in the store of every owner
in the end.

Writes that end at once leave no time to the other nodes.  They get their turn when a write has to
wait, and when `patience` writes have ended without a pause, which is a constant of the schedule as
those of `Cluster` are.
-/

set_option autoImplicit false

namespace AtomicGrid

/-- What to write, and where. -/
structure Simulation where
  nodes : Nat := 3
  keys : Nat := 16
  /-- Whom writes wait for, if not as configured. -/
  syncMode : Option SyncMode := none
  /-- The node to be taken out after half of the writes. -/
  victim : Option NodeId := none
  chunkSize : Nat := Cluster.defaultChunkSize
  deriving DecidableEq, Repr, Inhabited

/-- What a simulation cannot go on after. -/
inductive SimulationError where
  /-- No node is left to write from. -/
  | nobodyLeft
  /-- The write of a key never ends. -/
  | unanswered (key : Nat)
  deriving DecidableEq, Repr, Inhabited

def SimulationError.message : SimulationError → String
  | .nobodyLeft => "no node is running"
  | .unanswered i => s!"the write of key-{i} never ends"

/-- What is worth telling while a simulation runs. -/
inductive Incident where
  | killed (node : NodeId) (writes : Nat)
  | failed (key : Nat) (writer : NodeId) (error : CacheError)
  deriving DecidableEq, Repr, Inhabited

def Incident.text : Incident → String
  | .killed node writes => s!"killed {node.name} after {writes} writes"
  | .failed i writer error => s!"  key-{i} via {writer.name}: {error.message}"

/-- What came out of a simulation. -/
structure Report where
  incidents : List Incident
  running : Nat
  syncMode : SyncMode
  version : TopologyVersion
  succeeded : Nat
  failed : Nat
  replicated : Nat
  keys : Nat
  deriving DecidableEq, Repr, Inhabited

/-- The report in words, line by line. -/
def Report.lines (r : Report) : List String :=
  r.incidents.map Incident.text ++
    [s!"{r.running} nodes, sync mode {r.syncMode.name}, topology {r.version.text}",
     s!"writes: {r.succeeded} succeeded, {r.failed} failed",
     s!"fully replicated: {r.replicated}/{r.keys}"]

namespace Simulation

/-- The number of writes that may end one after the other without a pause.  A constant of the
schedule. -/
def patience : Nat := 128

def key (i : Nat) : Key := Utf8.encode s!"key-{i}"

def value (i : Nat) : Value := Utf8.encode s!"value-{i}"

/-- A simulation under way. -/
structure Run where
  cluster : Cluster
  succeeded : Nat := 0
  failed : Nat := 0
  incidents : List Incident := []
  /-- The number of writes that may still end before there is a pause. -/
  unpaused : Nat := patience

namespace Run

def kill (r : Run) (n : NodeId) (writes : Nat) : Run :=
  let (cluster, wasRunning) := r.cluster.kill n
  { r with
    cluster
    incidents := if wasRunning then r.incidents ++ [.killed n writes] else r.incidents }

/-- Counts how the write of a key ended. -/
def count (r : Run) (i : Nat) (writer : NodeId) :
    Except CacheError UpdateOutcome → Run
  | .ok outcome =>
    if outcome.isSuccess then { r with succeeded := r.succeeded + 1 }
    else { r with failed := r.failed + 1 }
  | .error e =>
    { r with failed := r.failed + 1, incidents := r.incidents ++ [.failed i writer e] }

/-- Writes a key from a node, and waits until the write ends. -/
def write (r : Run) (i : Nat) (writer : NodeId) : Except SimulationError Run :=
  match r.cluster.submit writer (.put (key i) (value i)) with
  | none => .error .nobodyLeft
  | some (cluster, .error e) => .ok ({ r with cluster }.count i writer (.error e))
  | some (cluster, .ok h) =>
    match r.unpaused, cluster.result? writer h with
    | unpaused + 1, some result => .ok ({ r with cluster, unpaused }.count i writer result)
    | _, result? =>
      let (cluster, later?) := Cluster.turnsUntil (·.result? writer h) cluster.workBound cluster
      match later?.or result? with
      | some result => .ok ({ r with cluster, unpaused := patience - 1 }.count i writer result)
      | none => .error (.unanswered i)

end Run

/-- Writes the key with a number from the running node whose turn it is. -/
def step (s : Simulation) (r : Run) (i : Nat) : Except SimulationError Run :=
  let r := match s.victim with
    | some n => if i = s.keys / 2 then r.kill n i else r
    | none => r
  let running := r.cluster.nodeIds
  match running[i % running.length]? with
  | none => .error .nobodyLeft
  | some writer => r.write i writer

/-- Whether the value of a key is in the store of every owner, and there is one. -/
def isReplicated (c : Cluster) (i : Nat) : Bool :=
  let owners := c.owners (key i)
  !owners.isEmpty && owners.all fun n =>
    (c.runningNode? n).any fun node => node.store.get? (key i) = some (value i)

/-- What came out in the end. -/
def report (keys : Nat) (mode : SyncMode) (r : Run) : Report where
  incidents := r.incidents
  running := r.cluster.nodeIds.length
  syncMode := mode
  version := r.cluster.topology.version
  succeeded := r.succeeded
  failed := r.failed
  replicated := (List.range keys).countP (isReplicated r.cluster)
  keys

/-- Runs a simulation under a configuration.  If writes do not wait for the backups, these get the
time they need before the values are counted. -/
def run (s : Simulation) (config : Config) : Except SimulationError Report := do
  let mode := s.syncMode.getD config.atomic.writeSyncMode
  let config := config.override { writeSyncMode := some mode }
  let cluster := Cluster.start s.nodes config s.chunkSize Processor.none
  let r ← (List.range s.keys).foldlM s.step { cluster }
  let cluster := if mode = .fullSync then r.cluster else r.cluster.settle
  return report s.keys mode { r with cluster }

end Simulation

end AtomicGrid
