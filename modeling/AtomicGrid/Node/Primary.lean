import AtomicGrid.Node.Basic

/-!
# The primary's part

Model of `process_near_update` and `process_check_update`.  A request is carried out only if it was
mapped on the topology the primary is at.  One that is ahead waits, one that is behind is sent back
to be mapped again; a request that must not be mapped again is carried out if this node is the
primary now, and fails otherwise.  The entries are applied in order, and what was applied is handed
on.

* `process` — the checks before the store is touched; `carryOut` — the loop over the entries
  (`applyEntry`) and the fan-out.
* `faults` of a node stand for a store that refuses a key (`StorageEngine.apply`).
-/

set_option autoImplicit false

namespace AtomicGrid

/-- What the entries of a request have come to so far. -/
structure Applied where
  store : Store
  fanout : Fanout
  ret : UpdateReturn := .flag true
  failedKeys : List (Key × FailureCause) := []
  /-- The values that entry processors made, for the caller's near cache. -/
  nearValues : List NearEntry := []
  deriving DecidableEq, Repr, Inhabited

/-- An entry of a request as the store gets it. -/
def UpdateRequest.writeCommand (r : UpdateRequest) (e : UpdateEntry) : WriteCommand where
  key := e.key
  operation := r.operation
  value := e.value
  processor := e.processor
  args := r.payload.args
  filters := r.payload.filters
  expiry := r.payload.expiry
  version := r.writeVersion

/-- What backups get of an applied entry. -/
def AppliedWrite.backupEntry (a : AppliedWrite) (key : Key) : BackupEntry where
  key := key
  value := a.newValue
  ttl := a.ttl
  conflictExpireTime := expireByTtl
  conflictVersion := none
  sendPrevious := false
  previous := none
  updateCounter := a.updateCounter

/-- What near caches get of an applied entry. -/
def AppliedWrite.nearEntry (a : AppliedWrite) (key : Key) : NearEntry :=
  ⟨key, a.newValue, a.ttl, expireByTtl⟩

namespace Node

/-- The return with the result of one more entry. -/
def returnOf (request : UpdateRequest) (ret : UpdateReturn) (key : Key) (a : AppliedWrite) :
    UpdateReturn :=
  let ret := match a.invoke with
    | some outcome => ret.addOutcome key outcome
    | none => if request.flags.returnValue then .previous a.previous ret.success else ret
  if a.filtered then { ret with success := false } else ret

/-- Applies an entry on the store, which may refuse its key. -/
def applyWrite (n : Node) (store : Store) (partition : UInt32) (w : WriteCommand) :
    Store × Except FailureCause AppliedWrite :=
  match n.faults.get? w.key with
  | some cause => (store, .error cause)
  | none => store.apply n.processors partition w

/-- Applies one entry and, if it was not held back, hands it on to the other owners and to readers
other than the caller's node. -/
def applyEntry (view : View) (n : Node) (sender : NodeId) (request : UpdateRequest) (s : Applied)
    (e : UpdateEntry) : Applied :=
  match n.applyWrite s.store request.partition (request.writeCommand e) with
  | (store, .error cause) => { s with store, failedKeys := s.failedKeys ++ [(e.key, cause)] }
  | (store, .ok a) =>
    let s := { s with store, ret := returnOf request s.ret e.key a }
    if a.filtered then s
    else
      let readers := (store.readersOf e.key).filter (· ≠ sender)
      let fanout := (s.fanout.addEntry n.site view (a.backupEntry e.key)).addNearEntry n.site view
        readers (a.nearEntry e.key)
      let made := if request.operation = .transform then [a.nearEntry e.key] else []
      { s with fanout, nearValues := s.nearValues ++ made }

def answerTo (n : Node) (e : Envelope) : UpdateResponse :=
  .plain { e with cacheId := n.site.cacheId } n.id

/-- Carries a request out and hands it on.  A caller that waits for nobody is answered only where it
is on this node. -/
def carryOut (view : View) (n : Node) (sender : NodeId) (request : UpdateRequest) :
    Node × List Effect :=
  let (n, id) := n.freshFuture
  let start : Applied := { store := n.store, fanout := .start n.site sender request id }
  let s := request.payload.entries.foldl (n.applyEntry view sender request) start
  let response := { n.answerTo request.toEnvelope with
    failedKeys := s.failedKeys
    ret := some s.ret
    nearVersion := some request.writeVersion
    nearValues := s.nearValues }
  let route := if request.syncMode = .fullAsync ∧ sender ≠ n.id then .nobody else .node sender
  { n with store := s.store }.putFanout view (s.fanout.map n.site view response s.ret route)

/-- The answer to a request that this cache cannot carry out for now. -/
def rejection (n : Node) (request : UpdateRequest) (detail : String) : UpdateResponse :=
  { n.answerTo request.toEnvelope with error := some (.rejected detail) }

/-- Handles a request from the caller's node. -/
def process (view : View) (n : Node) (sender : NodeId) (request : UpdateRequest) :
    Node × List Effect :=
  let t := view.topology
  let answer (r : UpdateResponse) : Node × List Effect := (n, reply view (.node sender) r)
  let locked := request.flags.topologyLocked
  let isPrimary := request.keys.all fun key => view.primary key t.version = some n.id
  if t.stopping then answer (n.rejection request s!"cache {n.site.cacheName} is stopping")
  else if !locked && (t.version < request.topologyVersion || !t.ready) then
    (n, [.waits ⟨request.topologyVersion, .process sender request⟩])
  else if !locked && (request.topologyVersion ≠ t.version || !isPrimary) then
    answer { n.answerTo request.toEnvelope with
      remapKeys := request.keys, remapTopologyVersion := t.version }
  else if isPrimary then n.carryOut view sender request
  else
    answer ((n.answerTo request.toEnvelope).addFailedKeys request.keys
      (.topologyChanged s!"node {n.id.name} is not primary at {t.version.text}"))

/-- Handles a request that has waited for the topology. -/
def processAwaited (view : View) (n : Node) (sender : NodeId) (request : UpdateRequest)
    (awaited : Except CacheError TopologyVersion) : Node × List Effect :=
  match awaited with
  | .ok _ => n.process view sender request
  | .error e => (n, reply view (.node sender) (n.rejection request e.message))

/-- Confirms an update whose backups are all gone (`process_check_update`).  Nothing is looked up.
-/
def confirm (view : View) (n : Node) (sender : NodeId) (m : CheckRequest) : List Effect :=
  reply view (.node sender) { n.answerTo m.toEnvelope with ret := some (.flag true) }

end Node

end AtomicGrid
