import AtomicGrid.Node

/-!
# One node by itself

A `Host` is a node with a topology of its own and tasks that wait for it, in a grid of which nothing
else is there: what the node does is logged, and what it sends goes nowhere.  Messages to some nodes
do not get through, which the node is told.

A task whose version is ready goes on at once, in the order the tasks came; the others are parked,
and woken whenever anything about the topology is announced.
-/

set_option autoImplicit false

namespace AtomicGrid

/-- A node with its topology and its tasks. -/
structure Host where
  node : Node
  topology : Topology
  affinity : Affinity
  /-- Nodes that have left as far as sending is concerned. -/
  down : NodeSet := ∅
  /-- Nodes that cannot be reached for another reason. -/
  broken : SortedMap NodeId String := ∅
  /-- Tasks to be run, in order. -/
  ready : List Wait := []
  /-- Tasks that sleep until the topology changes. -/
  parked : List Wait := []
  /-- What the node has done, in order. -/
  log : List Effect := []
  /-- What the node has sent to itself and not been given yet. -/
  own : List Message := []

namespace Host

def view (h : Host) : View where
  topology := h.topology
  affinity := h.affinity
  refusal n :=
    if h.down.contains n then some (.nodeLeft n) else (h.broken.get? n).map (.failed n)

/-- The tasks among some effects. -/
def waitsOf (effects : List Effect) : List Wait :=
  effects.filterMap fun
    | .waits w => some w
    | _ => none

/-- The messages to one node among some effects. -/
def messagesTo (n : NodeId) (effects : List Effect) : List Message :=
  effects.filterMap fun
    | .sent receiver m => if receiver = n then some m else none
    | _ => none

/-- Takes the node after an event, and notes what it did. -/
def take (h : Host) (r : Node × List Effect) : Host :=
  { h with
    node := r.1
    ready := h.ready ++ waitsOf r.2
    log := h.log ++ r.2
    own := h.own ++ messagesTo r.1.id r.2 }

def run (h : Host) (f : View → Node → Node × List Effect) : Host := h.take (f h.view h.node)

def submit (h : Host) (u : Update) : Host × Except CacheError Handle :=
  let (node, effects, started) := h.node.submit h.view u
  (h.take (node, effects), started)

/-- Hands messages to the node. -/
def deliver (h : Host) (sender : NodeId) (messages : List Message) : Host :=
  h.run fun view n => Node.each (fun n m => n.receive view sender m) n messages

/-- Changes the topology; all parked tasks are woken. -/
def announce (h : Host) (t : Topology) : Host :=
  { h with topology := t, ready := h.ready ++ h.parked, parked := [] }

/-- Runs the first task. -/
def tick (h : Host) : Host :=
  match h.ready with
  | [] => h
  | w :: rest =>
    let h := { h with ready := rest }
    match h.topology.awaited w.version with
    | some r => h.run fun view n => n.resume view w.task r
    | none => { h with parked := h.parked ++ [w] }

/-- Runs tasks until all are parked or done.  A task that goes on leaves at most one task, which
waits for a newer version and so is parked when its turn comes; hence the number of turns. -/
def settle (h : Host) : Host := (2 * h.ready.length).repeat tick h

/-- Delivers to the node what it sent to itself, batch after batch, and counts the messages. -/
def pumpBatches : Nat → Host → Host × Nat
  | 0, h => (h, 0)
  | k + 1, h =>
    let batch := h.own
    if batch.isEmpty then (h, 0)
    else
      let (h, count) := pumpBatches k ({ h with own := [] }.deliver h.node.id batch)
      (h, batch.length + count)

/-- Delivers to the node what it sent to itself until there is nothing left, and counts the
messages.  Every batch but a few stems from a coordinator that ends by it, and no more coordinators
were ever there than numbers given. -/
def pump (h : Host) : Host × Nat := pumpBatches (h.node.nextFuture.toNat + 16) h

/-- Whether a submission without a result can still get one: it has a number, or a task will map it
again. -/
def isHeld (h : Host) (handle : Handle) : Bool :=
  h.node.isRegistered handle || (h.ready ++ h.parked).any (·.task = .remap handle)

/-- The result of a submission.  One that can get none any more is given up, unless its caller
keeps hold of it. -/
def result? (h : Host) (handle : Handle) (kept : Bool) : Option (Except CacheError UpdateOutcome) :=
  match h.node.result? handle with
  | some r => some r
  | none =>
    if kept || h.isHeld handle then none
    else some (.error (.internal "update future dropped without completing"))

end Host

end AtomicGrid
