import AtomicGrid.Fanout
import AtomicGrid.NearCache
import AtomicGrid.Store
import AtomicGrid.Submission

/-!
# The state of a node

Model of `CacheContext` and `FutureRegistry`.  A `Node` holds one cache: its store, its near cache,
and the coordinators of updates in progress.  Coordinators carry out what they have to do through
the node; `performSubmission` and `performFanout` turn their actions into changes of the node and
into effects that the grid around it sees.

A message names the coordinator it is for by a number (`next_id`).  The registry says whose number
it is (`add_near`, `add_backup`, `remove`); numbers are never given twice.

A coordinator outlives its number, as whoever holds the future can still reach it: `submissions` and
`fanouts` keep those that the registry has forgotten.
-/

set_option autoImplicit false

namespace AtomicGrid

/-- The number of a submission on its node. -/
abbrev Handle := UInt64

/-- Whom a number belongs to (`RegisteredFuture`). -/
inductive Registered where
  | submission (handle : Handle)
  | fanout
  deriving DecidableEq, Repr, Inhabited

/-- What a node does once the topology has got there.  These are the two uses of `wait_ready`. -/
inductive Task where
  /-- Map a submission again. -/
  | remap (handle : Handle)
  /-- Process a request that was ahead of this node. -/
  | process (sender : NodeId) (request : UpdateRequest)
  deriving DecidableEq, Repr, Inhabited

/-- A task that waits until a version, or a later one, is ready. -/
structure Wait where
  version : TopologyVersion
  task : Task
  deriving DecidableEq, Repr, Inhabited

/-- What a node does that others see. -/
inductive Effect where
  | sent (receiver : NodeId) (message : Message)
  /-- A message that could not be handed on. -/
  | refused (receiver : NodeId) (message : Message)
  | nearWritten (key : Key) (value : Option Value) (version : WriteVersion) (ttl : Int64)
  /-- An answer for someone on this node. -/
  | replied (label : String) (response : UpdateResponse)
  /-- News for a listener of a fan-out. -/
  | notified (listener : String) (success : Bool)
  | waits (w : Wait)
  deriving DecidableEq, Repr, Inhabited

/-- One cache on one node. -/
structure Node where
  site : Site
  processors : Processors
  versions : VersionSource
  /-- The next number for a coordinator. -/
  nextFuture : FutureId := 1
  registry : SortedMap FutureId Registered := ∅
  submissions : SortedMap Handle Submission := ∅
  fanouts : SortedMap FutureId Fanout := ∅
  store : Store := {}
  /-- The keys whose updates the store refuses on this node as primary. -/
  faults : SortedMap Key FailureCause := ∅
  nearCache : Option NearCache

namespace Node

/-- A node that has done nothing yet. -/
def ofConfig (c : Config) (processors : Processors) : Node where
  site := .ofConfig c
  processors := processors
  versions := { nodeOrder := c.nodeId.toUInt32 }
  nearCache := if c.atomic.nearCache then some {} else none

def id (n : Node) : NodeId := n.site.node

def freshFuture (n : Node) : Node × FutureId :=
  ({ n with nextFuture := n.nextFuture + 1 }, n.nextFuture)

def submissionAt? (n : Node) (id : FutureId) : Option Handle :=
  match n.registry.get? id with
  | some (.submission h) => some h
  | _ => none

def isFanout (n : Node) (id : FutureId) : Bool := n.registry.get? id = some .fanout

/-- Whether a submission has a number at present. -/
def isRegistered (n : Node) (h : Handle) : Bool := n.registry.values.any (· = .submission h)

/-- What sending a message looks like from outside (`Transport.send`). -/
def transmission (view : View) (receiver : NodeId) (m : Message) : Effect :=
  if view.reaches receiver then .sent receiver m else .refused receiver m

/-- Hands a value, or a removal, to the near cache, if there is one. -/
def writeNear (n : Node) (key : Key) (value : Option Value) (version : WriteVersion) (ttl : Int64) :
    Node × List Effect :=
  match n.nearCache with
  | some near =>
    ({ n with nearCache := some (near.applyUpdate key value version) },
      [.nearWritten key value version ttl])
  | none => (n, [])

/-- Runs `f` on every item, from the left, and joins the effects. -/
def each {α : Type} (f : Node → α → Node × List Effect) : Node → List α → Node × List Effect
  | n, [] => (n, [])
  | n, a :: as =>
    let (n, first) := f n a
    let (n, more) := each f n as
    (n, first ++ more)

def performSubmission (view : View) (h : Handle) (n : Node) :
    SubmissionAction → Node × List Effect
  | .enlist id => ({ n with registry := n.registry.insert id (.submission h) }, [])
  | .retire id => ({ n with registry := n.registry.erase id }, [])
  | .send receiver m => (n, [transmission view receiver m])
  | .writeNear key value version ttl => n.writeNear key value version ttl
  | .await version => (n, [.waits ⟨version, .remap h⟩])

/-- Answers the caller's node, or whoever else waits for the primary. -/
def reply (view : View) (route : ReplyRoute) (r : UpdateResponse) : List Effect :=
  match route with
  | .node receiver => [transmission view receiver (.updateResponse r)]
  | .nobody => []
  | .label label => [.replied label r]

def performFanout (view : View) (n : Node) : FanoutAction → Node × List Effect
  | .enlist id => ({ n with registry := n.registry.insert id .fanout }, [])
  | .retire id => ({ n with registry := n.registry.erase id }, [])
  | .send receiver m => (n, [transmission view receiver m])
  | .reply route r => (n, reply view route r)
  | .notify listener success => (n, [.notified listener success])

/-- Puts a submission in its new state and does what it asks for. -/
def putSubmission (view : View) (n : Node) (h : Handle) (r : Submission × List SubmissionAction) :
    Node × List Effect :=
  each (performSubmission view h) { n with submissions := n.submissions.insert h r.1 } r.2

/-- Puts a fan-out in its new state and does what it asks for. -/
def putFanout (view : View) (n : Node) (r : Fanout × List FanoutAction) : Node × List Effect :=
  each (performFanout view) { n with fanouts := n.fanouts.insert r.1.id r.1 } r.2

def onSubmission (view : View) (n : Node) (h : Handle)
    (f : Submission → Submission × List SubmissionAction) : Node × List Effect :=
  match n.submissions.get? h with
  | some c => n.putSubmission view h (f c)
  | none => (n, [])

def onFanout (view : View) (n : Node) (id : FutureId) (f : Fanout → Fanout × List FanoutAction) :
    Node × List Effect :=
  match n.fanouts.get? id with
  | some x => n.putFanout view (f x)
  | none => (n, [])

/-- Maps a submission on the current topology, with a fresh number if it needs one. -/
def onMapping (view : View) (n : Node) (h : Handle)
    (f : Submission → FutureId → Submission × List SubmissionAction) : Node × List Effect :=
  match n.submissions.get? h with
  | some c =>
    let id := n.nextFuture
    let n := if c.launches view.topology then n.freshFuture.1 else n
    n.putSubmission view h (f c id)
  | none => (n, [])

end Node

end AtomicGrid
