import AtomicGrid.Node.Backup
import AtomicGrid.Node.Primary

/-!
# What a node does on each event

Model of `AtomicCache`: `submit` is `update`, `receive` is `on_message`, and `departed` is
`on_node_left` of the registry.  Callers submit updates, messages come in, nodes leave, and the
topology reaches versions that were waited for.  Each event gives the node after it and the effects,
in order.  A message for another cache, or for a number that belongs to nobody, changes nothing.

The registry tells its coordinators of a departure in no particular order; here it is the order of
their numbers.

## Results

* `Node.receive_foreign`: a message for another cache changes nothing.
-/

set_option autoImplicit false

namespace AtomicGrid.Node

/-- Submits an update, unless it makes no sense. -/
def submit (view : View) (n : Node) (update : Update) :
    Node × List Effect × Except CacheError Handle :=
  match update.fault? with
  | some e => (n, [], .error e)
  | none =>
    let (versions, version) := n.versions.next view.topology.version
    let h := version.order
    let c := Submission.start n.site update version
    let n := { n with versions, submissions := n.submissions.insert h c }
    let (n, effects) := n.onMapping view h fun c id => c.mapOn n.site view id
    (n, effects, .ok h)

def receive (view : View) (n : Node) (sender : NodeId) (m : Message) : Node × List Effect :=
  if m.envelope.cacheId ≠ n.site.cacheId then (n, [])
  else match m with
    | .updateRequest r => n.process view sender r
    | .backupRequest r => n.backUp view sender r
    | .checkRequest r => (n, n.confirm view sender r)
    | .updateResponse r =>
      match n.registry.get? r.future with
      | some (.submission h) =>
        n.onSubmission view h fun c => c.onResponse n.site view sender r false
      | some .fanout =>
        n.onFanout view r.future fun f =>
          let (f, actions, _) := f.register n.site sender false
          (f, actions)
      | none => (n, [])
    | .mappingNotice r =>
      match n.submissionAt? r.future with
      | some h => n.onSubmission view h fun c => c.onMapping r
      | none => (n, [])
    | .backupNotice r =>
      match n.submissionAt? r.future with
      | some h => n.onSubmission view h fun c => c.onNotice sender r
      | none => (n, [])

/-- Tells a coordinator that a node has left. -/
def tellDeparture (view : View) (gone : NodeId) (n : Node) (r : FutureId × Registered) :
    Node × List Effect :=
  match r.2 with
  | .submission h => n.onSubmission view h fun c => c.onDeparture n.site view gone
  | .fanout => n.onFanout view r.1 fun f =>
      let (f, actions, _) := f.register n.site gone true
      (f, actions)

/-- A node has left: all coordinators that have a number are told. -/
def departed (view : View) (n : Node) (gone : NodeId) : Node × List Effect :=
  each (tellDeparture view gone) n n.registry.entries

/-- Goes on with a task whose wait is over. -/
def resume (view : View) (n : Node) (task : Task) (awaited : Except CacheError TopologyVersion) :
    Node × List Effect :=
  match task with
  | .remap h => n.onMapping view h fun c id => c.resume n.site view id awaited
  | .process sender request => n.processAwaited view sender request awaited

/-- The fan-outs that an exchange to a version has to wait for (`fanouts_blocking`). -/
def pendingFanouts (n : Node) (v : TopologyVersion) : List FutureId :=
  n.registry.keys.filter fun id =>
    n.isFanout id && (n.fanouts.get? id).any (·.blocks v)

def result? (n : Node) (h : Handle) : Option (Except CacheError UpdateOutcome) :=
  (n.submissions.get? h).bind (·.result.waiting)

theorem receive_foreign {n : Node} {m : Message} (h : m.envelope.cacheId ≠ n.site.cacheId)
    (view : View) (sender : NodeId) : n.receive view sender m = (n, []) := by
  simp [receive, h]

end AtomicGrid.Node
