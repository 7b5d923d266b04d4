import AtomicGrid.Message
import AtomicGrid.Site

/-!
# Handing an update on

Model of `BackupUpdateFuture`.  After the primary has applied an update it opens a `Fanout`: the
entries are grouped by receiver, one request goes to each, and their acknowledgements are counted.

* `addEntry`, `addNearEntry` — `add_write_entry` and `add_near_write_entries`: an entry goes to
  every other owner of its key, and to the readers that are members.
* `map` — sends the requests and sees to the primary's answer.
* `register` — `register_response`, with `on_result` and `on_node_left` as its two uses: a receiver
  that leaves, or cannot be reached, counts as having acknowledged.
* `finish` — `on_done`: the fan-out was mapped and every receiver is accounted for.
* `listen`, `blocks` — `add_listener`, and what `fanouts_blocking` asks of a fan-out.

When the caller's node gets the primary's answer depends on whom its caller waits for:

| Caller waits for | Backups relay | Answer |
|---|---|---|
| all | no | once the fan-out is done |
| all | yes | at once if there is a value to return or the caller is on this node, else the backups notify the caller's node |
| the primary, or nobody | either | at once |

## Results

* `Fanout.register_unmapped`, `Fanout.register_recorded`: a receiver is recorded at most once, and
  nobody else ever is.
-/

set_option autoImplicit false

namespace AtomicGrid

/-- Who gets the primary's answer. -/
inductive ReplyRoute where
  /-- The caller's node. -/
  | node (receiver : NodeId)
  /-- Nobody, for the caller is not waiting. -/
  | nobody
  /-- Someone on this node, known by a label. -/
  | label (name : String)
  deriving DecidableEq, Repr, Inhabited

/-- What a fan-out asks its node to do. -/
inductive FanoutAction where
  /-- Let messages for this number come here. -/
  | enlist (id : FutureId)
  /-- No more messages for this number. -/
  | retire (id : FutureId)
  | send (receiver : NodeId) (message : Message)
  | reply (route : ReplyRoute) (response : UpdateResponse)
  /-- Tell a listener whether the update succeeded. -/
  | notify (listener : String) (success : Bool)
  deriving DecidableEq, Repr, Inhabited

/-- One receiver of an update (`PendingBackup`). -/
structure Receiver where
  request : BackupRequest
  /-- Whether it has acknowledged or is gone. -/
  responded : Bool := false
  deriving DecidableEq, Repr, Inhabited

/-- An update being handed on (`BackupUpdateFuture` with its `FanoutState`). -/
structure Fanout where
  /-- The request that every receiver gets, but for its entries. -/
  base : BackupRequest
  topologyLocked : Bool
  receivers : SortedMap NodeId Receiver := ∅
  /-- Whether the requests were sent. -/
  mapped : Bool := false
  /-- Whether the caller's node no longer cares about lost backups. -/
  repliedToNear : Bool := false
  success : Bool := true
  /-- The answer held back until all have acknowledged. -/
  deferred : Option (ReplyRoute × UpdateResponse) := none
  listeners : List String := []
  /-- The number of receivers recorded. -/
  responses : Nat := 0
  done : Bool := false
  deriving DecidableEq, Repr, Inhabited

namespace Fanout

/-- The fan-out of a request from `near`, under the number `id`. -/
def start (site : Site) (near : NodeId) (request : UpdateRequest) (id : FutureId) : Fanout where
  base := {
    cacheId := site.cacheId
    partition := request.partition
    future := id
    nearFuture := request.future
    nearNode := near
    writeVersion := request.writeVersion
    topologyVersion := request.topologyVersion
    syncMode := request.syncMode
    flags := { keepBinary := request.flags.keepBinary, skipStore := request.flags.skipStore }
    entries := []
    nearEntries := []
    args := request.payload.args
    mapping := none
    subjectId := request.subjectId
    taskNameHash := request.taskNameHash }
  topologyLocked := request.flags.topologyLocked

def id (f : Fanout) : FutureId := f.base.future

def nodes (f : Fanout) : List NodeId := f.receivers.keys

/-- Changes the request of a receiver, a new one included. -/
def addressing (f : Fanout) (n : NodeId) (g : BackupRequest → BackupRequest) : Fanout :=
  let r := (f.receivers.get? n).getD { request := f.base }
  { f with receivers := f.receivers.insert n { r with request := g r.request } }

/-- Hands an entry on to every other owner of its key at the version of the request.  Where this
node does not know the owners at that version, nobody gets it. -/
def addEntry (site : Site) (view : View) (f : Fanout) (e : BackupEntry) : Fanout :=
  ((view.owners e.key f.base.topologyVersion).filter (· ≠ site.node)).foldl
    (fun f n => f.addressing n fun r => { r with entries := r.entries ++ [e] }) f

/-- Hands an entry on to the near caches of readers, but for this node and those that have left. -/
def addNearEntry (site : Site) (view : View) (f : Fanout) (readers : List NodeId) (e : NearEntry) :
    Fanout :=
  (readers.filter fun n => n ≠ site.node && view.topology.isAlive n).foldl
    (fun f n => f.addressing n fun r => { r with nearEntries := r.nearEntries ++ [e] }) f

/-- Registers a listener for the end of the fan-out, and says whether that is still to come. -/
def listen (f : Fanout) (listener : String) : Fanout × Bool :=
  if f.done then (f, false) else ({ f with listeners := f.listeners ++ [listener] }, true)

/-- Whether an exchange to `v` has to wait for the fan-out. -/
def blocks (f : Fanout) (v : TopologyVersion) : Bool :=
  !f.topologyLocked && f.base.topologyVersion < v && !f.done

/-- Ends the fan-out, once: the answer held back goes out and the listeners are told. -/
def finish (f : Fanout) : Fanout × List FanoutAction :=
  if f.done then (f, [])
  else
    ({ f with done := true, deferred := none, listeners := [] },
      .retire f.id :: (f.deferred.toList.map fun d => .reply d.1 d.2) ++
        f.listeners.map (.notify · f.success))

/-- Tells the caller's node that a receiver is lost. -/
def lossNotice (site : Site) (f : Fanout) (n : NodeId) : FanoutAction :=
  .send f.base.nearNode (.backupNotice {
    cacheId := site.cacheId
    partition := f.base.partition
    future := f.base.nearFuture
    primary := site.node
    mapping := f.nodes
    failedNode := some n
    flags := {} })

/-- Records the acknowledgement of a receiver, or its loss, and says whether there was anything to
record. -/
def register (site : Site) (f : Fanout) (n : NodeId) (lost : Bool) :
    Fanout × List FanoutAction × Bool :=
  match f.receivers.get? n with
  | none => (f, [], false)
  | some r =>
    if r.responded then (f, [], false)
    else
      let notice := if lost && !f.repliedToNear then [f.lossNotice site n] else []
      let f := { f with
        receivers := f.receivers.insert n { r with responded := true }
        responses := f.responses + 1 }
      let (f, ended) := if f.mapped && f.receivers.size ≤ f.responses then f.finish else (f, [])
      (f, notice ++ ended, true)

/-- Sends requests.  A receiver that cannot be reached is lost. -/
def sendRequests (site : Site) (view : View) (f : Fanout) :
    List (NodeId × BackupRequest) → Fanout × List FanoutAction
  | [] => (f, [])
  | (n, request) :: rest =>
    let (f, lost) : Fanout × List FanoutAction :=
      if view.reaches n then (f, [])
      else
        let (f, actions, _) := f.register site n true
        (f, actions)
    let (f, more) := f.sendRequests site view rest
    (f, .send n (.backupRequest request) :: lost ++ more)

/-- Whether the caller's node gets its answer at once. -/
def repliesAtOnce (site : Site) (f : Fanout) (ret : UpdateReturn) : Bool :=
  match f.base.syncMode with
  | .fullSync =>
    site.settings.nearRelay = .backups && (ret.hasValue || f.base.nearNode = site.node)
  | _ => true

/-- Whether the backups tell the caller's node themselves. -/
def relays (site : Site) (f : Fanout) : Bool :=
  f.base.syncMode = .fullSync && site.settings.nearRelay = .backups

/-- The request to a receiver where the backups tell the caller's node themselves: it names all
receivers and, if the primary does not answer, carries the result. -/
def relayed (nodes : List NodeId) (result : Option Bool) (r : BackupRequest) : BackupRequest :=
  let r := { r with mapping := some nodes, flags := { r.flags with nearReply := true } }
  match result with
  | some success => r.withResult success
  | none => r

/-- Sends the requests and sees to the primary's answer, which never goes out before them.  An
update with no receiver is answered at once. -/
def map (site : Site) (view : View) (f : Fanout) (response : UpdateResponse) (ret : UpdateReturn)
    (route : ReplyRoute) : Fanout × List FanoutAction :=
  let atOnce := f.repliesAtOnce site ret
  let relays := f.relays site
  let nodes := f.nodes
  let f : Fanout := { f with
    mapped := true
    success := ret.success
    repliedToNear := f.base.syncMode ≠ .fullSync }
  if f.receivers.isEmpty then
    let (f, ended) := f.finish
    (f, .reply route response :: ended)
  else
    let f := if relays then
        let result := if atOnce then none else some ret.success
        { f with receivers := f.receivers.mapValues fun _ r =>
            { r with request := relayed nodes result r.request } }
      else f
    let response := if relays then { response with mapping := some nodes } else response
    let reply : List FanoutAction := if atOnce then [.reply route response] else []
    let f := if !atOnce && !relays then { f with deferred := some (route, response) } else f
    let requests := (f.receivers.entries.filter (!·.2.responded)).map fun e => (e.1, e.2.request)
    if requests.isEmpty then
      let (f, ended) := f.finish
      (f, reply ++ ended)
    else
      let mapping : List FanoutAction :=
        if relays && !atOnce && site.settings.sendMapping then
          [.send f.base.nearNode (.mappingNotice {
            cacheId := site.cacheId
            partition := f.base.partition
            future := f.base.nearFuture
            mapping := nodes })]
        else []
      let (f, sent) := f.sendRequests site view requests
      (f, .enlist f.id :: sent ++ mapping ++ reply)

theorem register_unmapped {site : Site} {f : Fanout} {n : NodeId}
    (h : f.receivers.get? n = none) (lost : Bool) : f.register site n lost = (f, [], false) := by
  simp [register, h]

theorem register_recorded {site : Site} {f : Fanout} {n : NodeId} {r : Receiver}
    (h : f.receivers.get? n = some r) (hr : r.responded = true) (lost : Bool) :
    f.register site n lost = (f, [], false) := by
  simp [register, h, hr]

end Fanout

end AtomicGrid
