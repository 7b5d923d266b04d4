import AtomicGrid.Inbox
import AtomicGrid.Node
import AtomicGrid.Router

/-!
# A cluster in one process

Model of `SimCluster`.  A `Cluster` runs several nodes of one cache over a router.  All nodes share
one topology.  A node is taken out (`kill`) by detaching it, running an exchange without it, and
telling the others; its submissions stay, and go on waiting for the topology, but nothing they send
gets through any more.

Work is done one piece at a time, in the order it became ready: a node reads its inbox, and a task
that waited for the topology goes on.  A node that has read its share of frames puts the rest off
until the next pause.  There is a pause after so many pieces of work, and when there is none left;
those who work with the cluster get their turn in the pauses.

This is one schedule among those a runtime may choose, and `turnLength` and `readingShare` are
constants of it.  What holds under every schedule is stated of a `Grid`, where each message and each
departure is an event of its own.

## Results

* `Cluster.kill_gone`: a node that does not run cannot be taken out.
-/

set_option autoImplicit false

namespace AtomicGrid

/-- A node of a cluster with the streams it reads. -/
structure Member where
  node : Node
  inbox : Inbox := {}

/-- A piece of work. -/
inductive Job where
  /-- A node reads its inbox. -/
  | read (n : NodeId)
  /-- A task on a node looks whether its version is ready. -/
  | task (n : NodeId) (w : Wait)
  deriving DecidableEq, Repr, Inhabited

structure Cluster where
  /-- The number of bytes read from a stream at a time. -/
  chunkSize : Nat
  router : Router := {}
  topology : Topology
  affinity : Affinity
  /-- All nodes there ever were. -/
  members : SortedMap NodeId Member := ∅
  running : NodeSet := ∅
  /-- Work to be done, in order. -/
  ready : List Job := []
  /-- Nodes that go on reading after the next pause, the last one first. -/
  putOff : List NodeId := []
  /-- Tasks that sleep until the topology changes. -/
  parked : List (NodeId × Wait) := []

namespace Cluster

/-- The number of bytes read from a stream at a time, if nothing else is asked for. -/
def defaultChunkSize : Nat := 7

/-- The number of frames that a node reads without a pause.  A constant of the schedule. -/
def readingShare : Nat := 128

/-- The number of pieces of work between two pauses.  A constant of the schedule. -/
def turnLength : Nat := 61

/-- Starts the nodes 1 to `count`, all alike but for their numbers.  Each is about to look into its
inbox. -/
def start (count : Nat) (config : Config) (chunkSize : Nat) (processors : Processors) : Cluster :=
  let ids := (List.range count).map fun i => NodeId.mk (UInt64.ofNat (i + 1))
  { chunkSize
    router := ids.foldl Router.register {}
    topology := .start ids
    affinity := .ranked config.atomic.partitions config.atomic.backups
    members := SortedMap.ofList (ids.map fun n =>
      (n, { node := .ofConfig { config with nodeId := n.id } processors }))
    running := SortedSet.ofList ids
    ready := ids.map .read }

/-- What a node sees. -/
def view (c : Cluster) (n : NodeId) : View where
  topology := c.topology
  affinity := c.affinity
  refusal := c.router.refusal n

def node? (c : Cluster) (n : NodeId) : Option Node := (c.members.get? n).map (·.node)

def runningNode? (c : Cluster) (n : NodeId) : Option Node :=
  if c.running.contains n then c.node? n else none

/-- The nodes that run, ascending. -/
def nodeIds (c : Cluster) : List NodeId := c.running.toList

def runningNodes (c : Cluster) : List (NodeId × Node) :=
  c.nodeIds.filterMap fun n => (c.node? n).map (n, ·)

/-- The owners of a key at the current version. -/
def owners (c : Cluster) (key : Key) : List NodeId :=
  c.affinity.keyOwners c.topology key c.topology.version

def putNode (c : Cluster) (n : NodeId) (node : Node) : Cluster :=
  { c with members := c.members.modify n ({ · with node }) }

/-- Adds a piece of work; a node that is going to read its inbox need not be told. -/
def enqueue (c : Cluster) (j : Job) : Cluster :=
  match j with
  | .read n =>
    if j ∈ c.ready || n ∈ c.putOff then c else { c with ready := c.ready ++ [j] }
  | .task _ _ => { c with ready := c.ready ++ [j] }

/-- Lets an effect of a node come about. -/
def perform (n : NodeId) (c : Cluster) : Effect → Cluster
  | .sent receiver m =>
    if c.router.delivers n receiver then
      { c with router := c.router.send n receiver m }.enqueue (.read receiver)
    else c
  | .waits w => c.enqueue (.task n w)
  | _ => c

/-- Takes a node after an event, and lets its effects come about. -/
def take (c : Cluster) (n : NodeId) (r : Node × List Effect) : Cluster :=
  r.2.foldl (perform n) (c.putNode n r.1)

def run (c : Cluster) (n : NodeId) (f : View → Node → Node × List Effect) : Cluster :=
  match c.node? n with
  | some node => c.take n (f (c.view n) node)
  | none => c

/-! ## Events from outside -/

/-- Submits an update on a node, unless the node does not run. -/
def submit (c : Cluster) (n : NodeId) (u : Update) : Option (Cluster × Except CacheError Handle) :=
  (c.runningNode? n).map fun node =>
    let (node, effects, started) := node.submit (c.view n) u
    (c.take n (node, effects), started)

/-- Changes the topology; all parked tasks are woken. -/
def announce (c : Cluster) (t : Topology) : Cluster :=
  { c with
    topology := t
    ready := c.ready ++ c.parked.map fun p => .task p.1 p.2
    parked := [] }

/-- Tells a running node that another has left. -/
def tellDeparture (gone : NodeId) (c : Cluster) (n : NodeId) : Cluster :=
  if c.running.contains n then c.run n fun view node => node.departed view gone else c

/-- Detaches a node; what waits in its inbox is lost.  That there is nothing left to read it notices
when its turn comes. -/
def detach (c : Cluster) (n : NodeId) : Cluster :=
  { c with
    router := (c.router.unregister n).dropInbox n
    running := c.running.erase n
    putOff := c.putOff.filter (· ≠ n) }.enqueue (.read n)

/-- Takes a node out, and says whether it was running. -/
def kill (c : Cluster) (n : NodeId) : Cluster × Bool :=
  if c.running.contains n then
    let c := c.detach n
    let c := c.announce (c.topology.nodeLeft n)
    (c.nodeIds.foldl (tellDeparture n) c, true)
  else (c, false)

def shutdown (c : Cluster) : Cluster :=
  let c := c.announce c.topology.stop
  c.nodeIds.foldl detach c

/-! ## Work -/

/-- A node reads one frame. -/
def readFrame (c : Cluster) (n : NodeId) (frame : Frame) : Cluster :=
  match c.members.get? n with
  | none => c
  | some member =>
    let (inbox, messages) := member.inbox.receive c.chunkSize frame.1 frame.2
    let c := { c with members := c.members.insert n { member with inbox } }
    c.run n fun view node => Node.each (fun node m => node.receive view frame.1 m) node messages

/-- A node, the first in the queue, reads up to a number of frames.  What it sends to itself it
reads as well. -/
def readInbox (n : NodeId) : Nat → Cluster → Cluster
  | 0, c => { c with ready := c.ready.tail, putOff := n :: c.putOff }
  | k + 1, c =>
    match c.router.next n with
    | some (router, frame) => readInbox n k ({ c with router }.readFrame n frame)
    | none => { c with ready := c.ready.tail }

/-- Does the first piece of work. -/
def tick (c : Cluster) : Cluster :=
  match c.ready with
  | [] => c
  | .read n :: _ => c.readInbox n readingShare
  | .task n w :: rest =>
    let c := { c with ready := rest }
    match c.topology.awaited w.version with
    | some r => c.run n fun view node => node.resume view w.task r
    | none => { c with parked := c.parked ++ [(n, w)] }

/-- Does up to a number of pieces of work. -/
def ticks : Nat → Cluster → Cluster
  | 0, c => c
  | k + 1, c => if c.ready.isEmpty then c else ticks k c.tick

/-- A pause: the nodes that put off reading are to go on, the one that did so last first. -/
def pause (c : Cluster) : Cluster :=
  { c with ready := c.ready ++ c.putOff.map .read, putOff := [] }

/-- Works up to the next pause. -/
def turn (c : Cluster) : Cluster := (ticks turnLength c).pause

def isIdle (c : Cluster) : Bool := c.ready.isEmpty && c.putOff.isEmpty

/-- Works for up to a number of turns, until something comes about. -/
def turnsUntil {α : Type} (sign : Cluster → Option α) : Nat → Cluster → Cluster × Option α
  | 0, c => (c, none)
  | k + 1, c =>
    if c.isIdle then (c, none)
    else
      let c := c.turn
      match sign c with
      | some a => (c, some a)
      | none => turnsUntil sign k c

/-- More turns than there can be before all is quiet, as each does one piece of work or more.  On
one topology an update is mapped at most twice; each mapping is a request that goes to so many
backups, and each of these answers once or twice.  When all have answered, so does the primary. -/
def workBound (c : Cluster) : Nat :=
  let frames := c.router.inboxes.values.flatten
  let waiting := c.members.values.flatMap fun m => m.node.submissions.values.filter (!·.isDone)
  let handedOn := c.members.values.flatMap fun m => m.node.fanouts.values.filter (!·.done)
  64 * (c.members.size + c.topology.nodes.size + 2) *
    (frames.length + 2 * waiting.length + handedOn.length + c.ready.length + c.putOff.length +
      c.parked.length + 1)

def settle (c : Cluster) : Cluster :=
  (turnsUntil (fun _ => (none : Option Unit)) c.workBound c).1

def result? (c : Cluster) (n : NodeId) (h : Handle) : Option (Except CacheError UpdateOutcome) :=
  (c.node? n).bind (·.result? h)

theorem kill_gone {c : Cluster} {n : NodeId} (h : c.running.contains n = false) :
    c.kill n = (c, false) := by
  simp [kill, h]

end Cluster

end AtomicGrid
