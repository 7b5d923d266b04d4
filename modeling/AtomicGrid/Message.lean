import AtomicGrid.Failure
import AtomicGrid.Message.Flags
import AtomicGrid.Message.Payload
import AtomicGrid.UpdateReturn

/-!
# Messages

What the nodes tell each other in the course of an update: a `Message` is a `CacheMessage`.  Every
message starts with an envelope that says which cache, partition and coordinator it concerns.

| Message | From | To |
|---|---|---|
| `UpdateRequest` | the caller's node | the primary |
| `BackupRequest` | the primary | backups and readers |
| `UpdateResponse` | the primary, or a backup | the caller's node, or the primary |
| `MappingNotice` | the primary | the caller's node |
| `BackupNotice` | a backup, or the primary for it | the caller's node |
| `CheckRequest` | the caller's node | the primary |
-/

set_option autoImplicit false

namespace AtomicGrid

/-- The number of a coordinator on its node. -/
abbrev FutureId := UInt64

/-- What every message starts with. -/
structure Envelope where
  cacheId : UInt32
  partition : UInt32
  /-- The coordinator the message is about. -/
  future : FutureId
  deriving DecidableEq, Repr, Inhabited

/-- Asks the primary for an update (`NearUpdateRequest`). -/
structure UpdateRequest extends Envelope where
  writeVersion : WriteVersion
  topologyVersion : TopologyVersion
  syncMode : SyncMode
  operation : Operation
  flags : RequestFlags
  payload : UpdatePayload
  subjectId : UInt64
  taskNameHash : UInt32
  deriving DecidableEq, Repr, Inhabited

/-- The keys of the update, in order. -/
def UpdateRequest.keys (r : UpdateRequest) : List Key := r.payload.keys

/-- One key to be written on a backup. -/
structure BackupEntry where
  key : Key
  /-- The new value; the entry is removed without one. -/
  value : Option Value
  ttl : Int64
  conflictExpireTime : Int64
  /-- Reserved for the resolution of conflicts. -/
  conflictVersion : Option WriteVersion
  /-- Reserved: whether `previous` is filled in. -/
  sendPrevious : Bool
  /-- Reserved for listeners that want the old value. -/
  previous : Option Value
  updateCounter : UInt64
  deriving DecidableEq, Repr, Inhabited

/-- One key for a near cache. -/
structure NearEntry where
  key : Key
  value : Option Value
  ttl : Int64
  expireTime : Int64
  deriving DecidableEq, Repr, Inhabited

/-- Hands an applied update on to a backup or reader (`BackupUpdateRequest`). -/
structure BackupRequest extends Envelope where
  /-- The coordinator on the caller's node. -/
  nearFuture : FutureId
  nearNode : NodeId
  writeVersion : WriteVersion
  topologyVersion : TopologyVersion
  syncMode : SyncMode
  flags : BackupFlags
  entries : List BackupEntry
  nearEntries : List NearEntry
  args : List Bytes
  /-- Every receiver, where the backups tell the caller's node themselves. -/
  mapping : Option (List NodeId)
  subjectId : UInt64
  taskNameHash : UInt32
  deriving DecidableEq, Repr, Inhabited

namespace BackupRequest

/-- The success flag of the primary's result, if it comes along. -/
def result? (r : BackupRequest) : Option Bool :=
  if r.flags.hasResult then some r.flags.resultSuccess else none

/-- Sends the primary's result along. -/
def withResult (r : BackupRequest) (success : Bool) : BackupRequest :=
  { r with flags := { r.flags with hasResult := true, resultSuccess := success } }

end BackupRequest

/-- Answers an update request or a backup request. -/
structure UpdateResponse extends Envelope where
  node : NodeId
  ret : Option UpdateReturn
  failedKeys : List (Key × FailureCause)
  /-- A failure that no single key is to blame for. -/
  error : Option FailureCause
  /-- Keys refused because the request was mapped on another topology. -/
  remapKeys : List Key
  /-- The topology version of the node that refused them. -/
  remapTopologyVersion : TopologyVersion
  /-- The nodes to hear from before the update is complete. -/
  mapping : Option (List NodeId)
  nearVersion : Option WriteVersion
  nearValues : List NearEntry
  deriving DecidableEq, Repr, Inhabited

namespace UpdateResponse

/-- A response without content. -/
def plain (e : Envelope) (node : NodeId) : UpdateResponse :=
  { (default : UpdateResponse) with toEnvelope := e, node }

/-- Marks several keys as failed for the same cause. -/
def addFailedKeys (r : UpdateResponse) (keys : List Key) (cause : FailureCause) : UpdateResponse :=
  { r with failedKeys := r.failedKeys ++ keys.map (·, cause) }

def hasError (r : UpdateResponse) : Bool := r.error.isSome || !r.failedKeys.isEmpty

/-- Whether the request has to be mapped again. -/
def needsRemap (r : UpdateResponse) : Bool := !r.remapKeys.isEmpty

end UpdateResponse

/-- Tells the caller's node which nodes to hear from (`NearMappingResponse`). -/
structure MappingNotice extends Envelope where
  mapping : List NodeId
  deriving DecidableEq, Repr, Inhabited

/-- Tells the caller's node that a backup is done or has failed (`BackupNearResponse`). -/
structure BackupNotice extends Envelope where
  /-- The primary of the update. -/
  primary : NodeId
  mapping : List NodeId
  /-- The backup that failed, where it is the primary that tells. -/
  failedNode : Option NodeId
  flags : NoticeFlags
  deriving DecidableEq, Repr, Inhabited

namespace BackupNotice

/-- The success flag of the primary's result, if it comes along. -/
def result? (r : BackupNotice) : Option Bool :=
  if r.flags.hasResult then some r.flags.resultSuccess else none

/-- Sends the primary's result along. -/
def withResult (r : BackupNotice) (success : Bool) : BackupNotice :=
  { r with flags := { hasResult := true, resultSuccess := success } }

end BackupNotice

/-- Asks the primary whether an update was applied whose backups are all gone
(`CheckUpdateRequest`). -/
structure CheckRequest extends Envelope where
  /-- The request in question, known to the asking node alone. -/
  update : Option UpdateRequest
  deriving DecidableEq, Repr, Inhabited

inductive MessageKind where
  | updateRequest
  | backupRequest
  | updateResponse
  | mappingNotice
  | backupNotice
  | checkRequest
  deriving DecidableEq, Repr, Inhabited

namespace MessageKind

/-- The byte that stands for the kind. -/
def code : MessageKind → UInt8
  | .updateRequest => 1
  | .backupRequest => 2
  | .updateResponse => 3
  | .mappingNotice => 4
  | .backupNotice => 5
  | .checkRequest => 6

/-- The kind a byte stands for. -/
def ofCode? (b : UInt8) : Option MessageKind :=
  [updateRequest, backupRequest, updateResponse, mappingNotice, backupNotice, checkRequest].find?
    (·.code = b)

/-- The kind's name on record. -/
def name : MessageKind → String
  | .updateRequest => "near_update_request"
  | .backupRequest => "backup_update_request"
  | .updateResponse => "update_response"
  | .mappingNotice => "near_mapping_response"
  | .backupNotice => "backup_near_response"
  | .checkRequest => "check_update_request"

/-- The content of a message of the kind. -/
@[reducible] def Body : MessageKind → Type
  | .updateRequest => UpdateRequest
  | .backupRequest => BackupRequest
  | .updateResponse => UpdateResponse
  | .mappingNotice => MappingNotice
  | .backupNotice => BackupNotice
  | .checkRequest => CheckRequest

/-- The content with every field at its least value. -/
def blank : (k : MessageKind) → k.Body
  | .updateRequest => (default : UpdateRequest)
  | .backupRequest => (default : BackupRequest)
  | .updateResponse => (default : UpdateResponse)
  | .mappingNotice => (default : MappingNotice)
  | .backupNotice => (default : BackupNotice)
  | .checkRequest => (default : CheckRequest)

@[simp] theorem ofCode?_code (k : MessageKind) : ofCode? k.code = some k := by cases k <;> rfl

theorem code_of_ofCode? {b : UInt8} {k : MessageKind} (h : ofCode? b = some k) : b = k.code := by
  have := List.find?_some h
  simpa [eq_comm] using this

end MessageKind

/-- What one node sends to another. -/
inductive Message where
  | updateRequest (m : UpdateRequest)
  | backupRequest (m : BackupRequest)
  | updateResponse (m : UpdateResponse)
  | mappingNotice (m : MappingNotice)
  | backupNotice (m : BackupNotice)
  | checkRequest (m : CheckRequest)
  deriving DecidableEq, Repr, Inhabited

namespace Message

def kind : Message → MessageKind
  | .updateRequest _ => .updateRequest
  | .backupRequest _ => .backupRequest
  | .updateResponse _ => .updateResponse
  | .mappingNotice _ => .mappingNotice
  | .backupNotice _ => .backupNotice
  | .checkRequest _ => .checkRequest

def body : (m : Message) → m.kind.Body
  | .updateRequest m => m
  | .backupRequest m => m
  | .updateResponse m => m
  | .mappingNotice m => m
  | .backupNotice m => m
  | .checkRequest m => m

def ofBody : (k : MessageKind) → k.Body → Message
  | .updateRequest, m => .updateRequest m
  | .backupRequest, m => .backupRequest m
  | .updateResponse, m => .updateResponse m
  | .mappingNotice, m => .mappingNotice m
  | .backupNotice, m => .backupNotice m
  | .checkRequest, m => .checkRequest m

@[simp] theorem ofBody_body (m : Message) : ofBody m.kind m.body = m := by cases m <;> rfl

/-- Which cache, partition and coordinator a message concerns. -/
def envelope : Message → Envelope
  | .updateRequest m => m.toEnvelope
  | .backupRequest m => m.toEnvelope
  | .updateResponse m => m.toEnvelope
  | .mappingNotice m => m.toEnvelope
  | .backupNotice m => m.toEnvelope
  | .checkRequest m => m.toEnvelope

/-- The message as its receiver sees it, without what only the sender knows. -/
def received : Message → Message
  | .checkRequest m => .checkRequest { m with update := none }
  | m => m

end Message

end AtomicGrid
