import AtomicGrid.Wire.Reader
import AtomicGrid.Wire.Values

/-!
# Layouts of messages

The layout of a message kind lists its fields in the order they travel.  A `Slot` says how a field
sits in the message, for writing and for reading.  Thus one table stands for `write_to` and
`read_from` of a kind, and its length for `FIELD_COUNT`.
-/

set_option autoImplicit false

namespace AtomicGrid.Wire

/-- A field of a message: its shape, how it is got from the message and how it is put into it. -/
structure Slot (σ : Type) where
  shape : Shape
  get : σ → shape.Value
  set : shape.Value → σ → Except WireError σ

namespace Slot

variable {σ α : Type}

def word8 (get : σ → UInt8) (set : UInt8 → σ → σ) : Slot σ :=
  ⟨.word8, get, fun v m => .ok (set v m)⟩

def word32 (get : σ → UInt32) (set : UInt32 → σ → σ) : Slot σ :=
  ⟨.word32, get, fun v m => .ok (set v m)⟩

def word64 (get : σ → UInt64) (set : UInt64 → σ → σ) : Slot σ :=
  ⟨.word64, get, fun v m => .ok (set v m)⟩

def topology (get : σ → TopologyVersion) (set : TopologyVersion → σ → σ) : Slot σ :=
  ⟨.topology, get, fun v m => .ok (set v m)⟩

/-- A value that a byte stands for. -/
def code (field : String) (write : α → UInt8) (read : UInt8 → Option α) (get : σ → α)
    (set : α → σ → σ) : Slot σ where
  shape := .word8
  get m := write (get m)
  set b m :=
    match read b with
    | some v => .ok (set v m)
    | none => .error (.malformed field (.unknownCode b))

/-- A composite value. -/
def composite (field : String) (c : Codec α) (get : σ → α) (set : α → σ → σ) : Slot σ where
  shape := .bytes
  get m := some (c.encode (get m))
  set bs m :=
    match decodeField c field bs with
    | .ok v => .ok (set v m)
    | .error e => .error e

end Slot

open Slot Codec

def updateRequestLayout : List (Slot UpdateRequest) :=
  [word32 (·.cacheId) fun v m => { m with cacheId := v },
    word32 (·.partition) fun v m => { m with partition := v },
    word64 (·.future) fun v m => { m with future := v },
    composite "write_version" writeVersion (·.writeVersion) fun v m => { m with writeVersion := v },
    topology (·.topologyVersion) fun v m => { m with topologyVersion := v },
    code "sync_mode" SyncMode.code SyncMode.ofCode? (·.syncMode) fun v m =>
      { m with syncMode := v },
    code "operation" Operation.code Operation.ofCode? (·.operation) fun v m =>
      { m with operation := v },
    word8 (·.flags.bits) fun v m => { m with flags := RequestFlags.ofBits v },
    composite "payload" updatePayload (·.payload) fun v m => { m with payload := v },
    word64 (·.subjectId) fun v m => { m with subjectId := v },
    word32 (·.taskNameHash) fun v m => { m with taskNameHash := v }]

def backupRequestLayout : List (Slot BackupRequest) :=
  [word32 (·.cacheId) fun v m => { m with cacheId := v },
    word32 (·.partition) fun v m => { m with partition := v },
    word64 (·.future) fun v m => { m with future := v },
    word64 (·.nearFuture) fun v m => { m with nearFuture := v },
    word64 (·.nearNode.id) fun v m => { m with nearNode := ⟨v⟩ },
    composite "write_version" writeVersion (·.writeVersion) fun v m => { m with writeVersion := v },
    topology (·.topologyVersion) fun v m => { m with topologyVersion := v },
    code "sync_mode" SyncMode.code SyncMode.ofCode? (·.syncMode) fun v m =>
      { m with syncMode := v },
    word8 (·.flags.bits) fun v m => { m with flags := BackupFlags.ofBits v },
    composite "entries" backupEntry.list (·.entries) fun v m => { m with entries := v },
    composite "near_entries" nearEntry.list (·.nearEntries) fun v m => { m with nearEntries := v },
    composite "invoke_args" bytes.list (·.args) fun v m => { m with args := v },
    composite "mapping" nodeId.list.option (·.mapping) fun v m => { m with mapping := v },
    word64 (·.subjectId) fun v m => { m with subjectId := v },
    word32 (·.taskNameHash) fun v m => { m with taskNameHash := v }]

def updateResponseLayout : List (Slot UpdateResponse) :=
  [word32 (·.cacheId) fun v m => { m with cacheId := v },
    word32 (·.partition) fun v m => { m with partition := v },
    word64 (·.future) fun v m => { m with future := v },
    word64 (·.node.id) fun v m => { m with node := ⟨v⟩ },
    composite "ret" updateReturn.option (·.ret) fun v m => { m with ret := v },
    composite "failed_keys" failedKeys (·.failedKeys) fun v m => { m with failedKeys := v },
    composite "error" failureCause.option (·.error) fun v m => { m with error := v },
    composite "remap_keys" bytes.list (·.remapKeys) fun v m => { m with remapKeys := v },
    topology (·.remapTopologyVersion) fun v m => { m with remapTopologyVersion := v },
    composite "mapping" nodeId.list.option (·.mapping) fun v m => { m with mapping := v },
    composite "near_version" writeVersion.option (·.nearVersion) fun v m =>
      { m with nearVersion := v },
    composite "near_values" nearEntry.list (·.nearValues) fun v m => { m with nearValues := v }]

def mappingNoticeLayout : List (Slot MappingNotice) :=
  [word32 (·.cacheId) fun v m => { m with cacheId := v },
    word32 (·.partition) fun v m => { m with partition := v },
    word64 (·.future) fun v m => { m with future := v },
    composite "mapping" nodeId.list (·.mapping) fun v m => { m with mapping := v }]

def backupNoticeLayout : List (Slot BackupNotice) :=
  [word32 (·.cacheId) fun v m => { m with cacheId := v },
    word32 (·.partition) fun v m => { m with partition := v },
    word64 (·.future) fun v m => { m with future := v },
    word64 (·.primary.id) fun v m => { m with primary := ⟨v⟩ },
    composite "mapping" nodeId.list (·.mapping) fun v m => { m with mapping := v },
    composite "failed_node" nodeId.option (·.failedNode) fun v m => { m with failedNode := v },
    word8 (·.flags.bits) fun v m => { m with flags := NoticeFlags.ofBits v }]

def checkRequestLayout : List (Slot CheckRequest) :=
  [word32 (·.cacheId) fun v m => { m with cacheId := v },
    word32 (·.partition) fun v m => { m with partition := v },
    word64 (·.future) fun v m => { m with future := v }]

/-- The fields of a message kind, in the order they travel. -/
def layout : (k : MessageKind) → List (Slot k.Body)
  | .updateRequest => updateRequestLayout
  | .backupRequest => backupRequestLayout
  | .updateResponse => updateResponseLayout
  | .mappingNotice => mappingNoticeLayout
  | .backupNotice => backupNoticeLayout
  | .checkRequest => checkRequestLayout

/-- The number of fields of a message kind, as its header announces it. -/
def fieldCount (k : MessageKind) : UInt8 := UInt8.ofNat (layout k).length

end AtomicGrid.Wire
