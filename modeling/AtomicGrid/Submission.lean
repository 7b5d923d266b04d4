import AtomicGrid.Latch
import AtomicGrid.Site
import AtomicGrid.Submission.Attempt
import AtomicGrid.Update

/-!
# An update on its caller's node

Model of `NearUpdateFuture` with its `NearState`: a `Submission` drives one update to its result.
Each attempt maps the update on a ready topology version and sends one request to the primary.  An
attempt that fails for the topology's sake is dropped, and the update is mapped again on a newer
version; the failures of all attempts are kept.  A version that a primary refused is never mapped on
again.

* `mapOn`, `launch`, `sendRequest` — `map_on_topology`, and the two halves of `map`.
* `onResponse` — `on_primary_response`, in its three cases `onRefusal`, `onFailure` and `onSuccess`.
* `unanswered` — the response that `on_send_error` and `on_node_left` make up.
* `onMapping`, `onNotice`, `onDeparture` — `on_mapping_received`, `on_backup_response` and
  `on_node_left`; `follow` is `action_for` with `run`.
* `complete` — latches the result and gives the number of the current attempt back.

A function on submissions returns the submission after the event and what the node has to do.

```text
submit ──▶ mapOn ──▶ launch ──▶ request to the primary
             ▲                          │
             │  remap, on a newer       ▼
             └─────────────────────  onResponse ──▶ complete
```

## Results

* `Submission.complete_of_isDone`: a result stays.
* `Submission.isDone_complete`: after `complete` there is a result.
-/

set_option autoImplicit false

namespace AtomicGrid

/-- What a submission asks its node to do. -/
inductive SubmissionAction where
  /-- Let messages for this number come here. -/
  | enlist (id : FutureId)
  /-- No more messages for this number. -/
  | retire (id : FutureId)
  | send (receiver : NodeId) (message : Message)
  /-- Hand a value, or a removal, to the near cache. -/
  | writeNear (key : Key) (value : Option Value) (version : WriteVersion) (ttl : Int64)
  /-- Come back when this version, or a later one, is ready. -/
  | await (version : TopologyVersion)
  deriving DecidableEq, Repr, Inhabited

/-- An update on its way (`NearUpdateFuture`). -/
structure Submission where
  update : Update
  syncMode : SyncMode
  /-- The identity of the update, the same in every attempt. -/
  version : WriteVersion
  result : Latch (Except CacheError UpdateOutcome) := {}
  /-- The number of the current attempt. -/
  future : Option FutureId := none
  /-- The topology version of the current attempt. -/
  topologyVersion : TopologyVersion := .zero
  attempt : Option Attempt := none
  /-- What the current attempt has returned. -/
  ret : Option UpdateReturn := none
  /-- The failures of earlier attempts. -/
  history : FailureSet := ∅
  remapsLeft : UInt32
  remapsDone : UInt32 := 0
  /-- The newest version that a primary refused. -/
  refused : Option TopologyVersion := none

namespace Submission

/-- A submission before its first attempt. -/
def start (site : Site) (update : Update) (version : WriteVersion) : Submission where
  update := update
  syncMode := update.syncMode.getD site.settings.writeSyncMode
  version := version
  remapsLeft := site.settings.remapCount

def isDone (c : Submission) : Bool := c.result.isDone

/-! ## The end of an update -/

/-- Sets the result, unless there is one, and ends the current attempt. -/
def complete (c : Submission) (r : Except CacheError UpdateOutcome) :
    Submission × List SubmissionAction :=
  if c.isDone then (c, [])
  else ({ c with result := (c.result.complete r).1, future := none },
    c.future.toList.map .retire)

/-- A return in the shape the caller asked for; without a return, a bare success. -/
def outcome (c : Submission) (ret : Option UpdateReturn) : UpdateOutcome :=
  .ofReturn (ret.getD (.flag true)) c.update.operation c.update.wantsPrevious c.update.raw

/-- Hands the caller's own value to the near cache.  What an entry processor made of the value is
not known here. -/
def writeOwnValue (c : Submission) (version : WriteVersion) : List SubmissionAction :=
  match c.update.operation with
  | .update => [.writeNear c.update.key c.update.value version c.update.nearTtl]
  | .delete => [.writeNear c.update.key none version c.update.nearTtl]
  | .transform => []

/-- Hands what the primary reports to the near cache (`update_near`): its values if it sent any,
else the caller's own.  An update that was held back leaves the near cache alone. -/
def writeReported (c : Submission) (r : UpdateResponse) : List SubmissionAction :=
  if r.ret.any (!·.success) then []
  else
    let version := r.nearVersion.getD c.version
    if r.nearValues.isEmpty then c.writeOwnValue version
    else r.nearValues.map fun e => .writeNear e.key e.value version e.ttl

/-! ## Attempts -/

/-- Maps the update again once `version` is ready, if the update may wait. -/
def remap (site : Site) (c : Submission) (version : TopologyVersion) :
    Submission × List SubmissionAction :=
  if site.settings.waitForTopology && !c.update.topologyLocked then (c, [.await version])
  else c.complete (.error (.topologyMoved version (some c.update.key)))

/-- Drops the current attempt and all it has come to. -/
def detach (c : Submission) : Submission × List SubmissionAction :=
  ({ c with future := none, topologyVersion := .zero, attempt := none, ret := none },
    c.future.toList.map .retire)

/-- Drops the current attempt and maps the update again. -/
def retryOn (site : Site) (c : Submission) (version : TopologyVersion) :
    Submission × List SubmissionAction :=
  let (c, retired) := c.detach
  let (c, more) := c.remap site version
  (c, retired ++ more)

/-- The primary refuses the version the request was mapped on. -/
def onRefusal (site : Site) (view : View) (c : Submission) (request : UpdateRequest)
    (r : UpdateResponse) : Submission × List SubmissionAction :=
  let refused := match c.refused with
    | some v => v.max request.topologyVersion
    | none => request.topologyVersion
  { c with refused := some refused }.retryOn site
    (view.topology.version.max r.remapTopologyVersion)

/-- Keys failed.  The update is mapped again above the version they failed on, if that can help and
there are attempts left. -/
def onFailure (site : Site) (c : Submission) (request : UpdateRequest) (r : UpdateResponse) :
    Submission × List SubmissionAction :=
  let failures := r.failedKeys.foldl
    (fun s f => s.record f.1 ⟨f.2, request.topologyVersion⟩) (∅ : FailureSet)
  let history := c.history.merge failures
  if failures.isRetryable ∧ 0 < c.remapsLeft then
    let failedAt := failures.topologyVersion?.getD request.topologyVersion
    { c with
      history, remapsLeft := c.remapsLeft - 1, remapsDone := c.remapsDone + 1 }.retryOn site
      failedAt.nextMajor
  else
    match r.error, r.failedKeys with
    | some cause, [] => c.complete (.error (.remote cause.message))
    | _, _ =>
      if failures.isRetryable ∧ 0 < c.remapsDone then
        c.complete (.error (.attemptsExhausted c.remapsDone history))
      else c.complete (.error (.partialFailure history))

/-- The primary has carried the update out. -/
def onSuccess (c : Submission) (a : Attempt) (r : UpdateResponse) (nodeError : Bool) :
    Submission × List SubmissionAction :=
  let ret := match r.ret with
    | some ret =>
      match c.ret with
      | some old => some (if c.update.operation = .transform then old.merge ret else ret)
      | none => some ret
    | none => c.ret
  let (a, progress) := a.onAnswer r.mapping
  let c := { c with attempt := some a, ret }
  if progress = .finished then
    let near := if nodeError then [] else c.writeReported r
    let (c, ended) := { c with ret := none }.complete (.ok (c.outcome c.ret))
    (c, near ++ ended)
  else (c, [])

/-- The primary's answer, or one made up in its place (`nodeError`) because it cannot answer.  An
answer to another attempt, from another node, or to a request that was answered changes nothing. -/
def onResponse (site : Site) (view : View) (c : Submission) (sender : NodeId) (r : UpdateResponse)
    (nodeError : Bool) : Submission × List SubmissionAction :=
  match c.attempt with
  | none => (c, [])
  | some a =>
    if c.future = some r.future ∧ a.awaitsPrimary sender then
      let a := { a with responded := true }
      let c := { c with attempt := some a }
      if r.needsRemap then c.onRefusal site view a.request r
      else if r.hasError then c.onFailure site a.request r
      else c.onSuccess a r nodeError
    else (c, [])

/-- The answer made up for a primary that cannot answer: every key failed. -/
def unanswered (site : Site) (request : UpdateRequest) (primary : NodeId) (cause : FailureCause) :
    UpdateResponse :=
  (UpdateResponse.plain ⟨site.cacheId, request.partition, request.future⟩ primary).addFailedKeys
    request.keys cause

/-- The request of an attempt (`build_request`). -/
def request (site : Site) (view : View) (c : Submission) (id : FutureId) : UpdateRequest where
  cacheId := site.cacheId
  partition := view.partition c.update.key
  future := id
  writeVersion := c.version
  topologyVersion := view.topology.version
  syncMode := c.syncMode
  operation := c.update.operation
  flags := c.update.flags
  payload := c.update.payload
  subjectId := site.node.id
  taskNameHash := c.update.taskNameHash

/-- What a failed send says about the keys of the request (`on_send_error`). -/
def sendFailure : SendError → FailureCause
  | .nodeLeft n => .nodeDeparted n
  | .failed _ detail => .topologyChanged detail

/-- Sends the request of an attempt.  An update nobody waits for is complete as soon as its request
is on the way to another node. -/
def sendRequest (site : Site) (view : View) (c : Submission) (id : FutureId) (primary : NodeId) :
    Submission × List SubmissionAction :=
  let request := c.request site view id
  let relayed := c.syncMode = .fullSync && site.settings.nearRelay = .backups
  let c := { c with attempt := some { request, primary, relayed } }
  let (c, more) : Submission × List SubmissionAction := match view.refusal primary with
    | none =>
      if c.syncMode = .fullAsync ∧ primary ≠ site.node then
        c.complete (.ok (c.outcome (some (.flag true))))
      else (c, [])
    | some e =>
      c.onResponse site view primary (unanswered site request primary (sendFailure e)) true
  (c, .send primary (.updateRequest request) :: more)

def launch (site : Site) (view : View) (c : Submission) (id : FutureId) :
    Submission × List SubmissionAction :=
  let version := view.topology.version
  let c := { c with future := some id, topologyVersion := version }
  let (c, more) := match view.primary c.update.key version with
    | some primary => c.sendRequest site view id primary
    | none => c.complete (.error (.noPrimary (view.partition c.update.key) version))
  (c, .enlist id :: more)

/-- Whether the current topology can be mapped on: it is ready, and newer than any a primary
refused. -/
def admits (c : Submission) (t : Topology) : Bool := t.ready && c.refused.all (· < t.version)

/-- The version to wait for before mapping on a topology that does not do. -/
def awaitedVersion (c : Submission) (t : Topology) : TopologyVersion :=
  match c.refused with
  | some v => v.nextMinor.max t.version
  | none => t.version

/-- Whether `mapOn` will start an attempt. -/
def launches (c : Submission) (t : Topology) : Bool :=
  !c.isDone && !t.stopping && c.admits t

/-- Maps the update on the current topology, under the number `id`. -/
def mapOn (site : Site) (view : View) (c : Submission) (id : FutureId) :
    Submission × List SubmissionAction :=
  let t := view.topology
  if c.isDone then (c, [])
  else if t.stopping then c.complete (.error (.stopped site.cacheName))
  else if c.admits t then c.launch site view id
  else c.remap site (c.awaitedVersion t)

/-- Goes on after waiting for the topology. -/
def resume (site : Site) (view : View) (c : Submission) (id : FutureId)
    (awaited : Except CacheError TopologyVersion) : Submission × List SubmissionAction :=
  match awaited with
  | .ok _ => c.mapOn site view id
  | .error (.stopped _) => c.complete (.error (.stopped site.cacheName))
  | .error e => c.complete (.error e)

/-! ## News from backups and departures -/

/-- Acts on the progress of the current attempt (`action_for`, `run`). -/
def follow (c : Submission) (a : Attempt) (p : Progress) : Submission × List SubmissionAction :=
  match p with
  | .pending => (c, [])
  | .finished =>
    let outcome := c.outcome c.ret
    let near := if !a.responded && outcome.isSuccess then c.writeOwnValue c.version else []
    let (c, ended) := { c with ret := none }.complete (.ok outcome)
    (c, near ++ ended)
  | .unconfirmed =>
    (c, [.send a.primary (.checkRequest ⟨a.request.toEnvelope, some a.request⟩)])

/-- The primary tells whom to hear from. -/
def onMapping (c : Submission) (m : MappingNotice) : Submission × List SubmissionAction :=
  match c.attempt with
  | none => (c, [])
  | some a =>
    if c.future = some m.future then
      let (a, progress) := a.onMapping m.mapping
      { c with attempt := some a }.follow a progress
    else (c, [])

/-- A backup is done, or the primary says that one has failed. -/
def onNotice (c : Submission) (sender : NodeId) (m : BackupNotice) :
    Submission × List SubmissionAction :=
  match c.attempt with
  | none => (c, [])
  | some a =>
    if c.future = some m.future ∧ a.primary = m.primary then
      let (a, progress) := a.onNotice sender m
      let ret := c.ret.or (m.result?.map .flag)
      { c with attempt := some a, ret }.follow a progress
    else (c, [])

/-- A node leaves the grid.  If it is the primary and has not answered, its answer is made up. -/
def onDeparture (site : Site) (view : View) (c : Submission) (n : NodeId) :
    Submission × List SubmissionAction :=
  match c.attempt with
  | none => (c, [])
  | some a =>
    if a.awaitsPrimary n then
      c.onResponse site view n (unanswered site a.request n (.nodeDeparted n)) true
    else
      let (a, progress) := a.onDeparture n
      { c with attempt := some a }.follow a progress

theorem complete_of_isDone {c : Submission} (h : c.isDone = true)
    (r : Except CacheError UpdateOutcome) : c.complete r = (c, []) := by
  simp [complete, h]

theorem isDone_complete (c : Submission) (r : Except CacheError UpdateOutcome) :
    (c.complete r).1.isDone = true := by
  unfold complete
  split
  · assumption
  · exact Latch.complete_isDone _ _

end Submission

end AtomicGrid
