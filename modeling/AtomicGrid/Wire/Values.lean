import AtomicGrid.Message
import AtomicGrid.Wire.Codec

/-!
# The composite values of messages

The codec of every record and choice that travels inside a message field.
-/

set_option autoImplicit false

namespace AtomicGrid.Wire.Codec

/-- A node by its number. -/
def nodeId : Codec NodeId := word64.imap NodeId.mk NodeId.id

/-- Major, then minor number. -/
def topologyVersion : Codec TopologyVersion :=
  (word64.pair word32).imap (fun p => ⟨p.1, p.2⟩) (fun v => (v.major, v.minor))

/-- Topology order, order and node order. -/
def writeVersion : Codec WriteVersion :=
  (word32.pair (word64.pair word32)).imap (fun p => ⟨p.1, p.2.1, p.2.2⟩)
    (fun v => (v.topologyOrder, v.order, v.nodeOrder))

/-- An entry processor by its name. -/
def processorRef : Codec ProcessorRef := text.imap ProcessorRef.mk ProcessorRef.name

/-- A condition on the stored value. -/
def entryFilter : Codec EntryFilter :=
  choice (.unknownTag "filter")
    [⟨0, Unit, unit, fun _ => .hasValue, fun | .hasValue => some () | _ => none⟩,
      ⟨1, Unit, unit, fun _ => .noValue, fun | .noValue => some () | _ => none⟩,
      ⟨2, Bytes, bytes, .valueEquals, fun | .valueEquals v => some v | _ => none⟩]

def expiryPolicy : Codec ExpiryPolicy :=
  (word64.option.pair (word64.option.pair word64.option)).imap (fun p => ⟨p.1, p.2.1, p.2.2⟩)
    (fun e => (e.create, e.update, e.access))

def failureCause : Codec FailureCause :=
  choice (.unknownTag "failure cause")
    [⟨0, NodeId, nodeId, .nodeDeparted, fun | .nodeDeparted n => some n | _ => none⟩,
      ⟨1, String, text, .topologyChanged, fun | .topologyChanged m => some m | _ => none⟩,
      ⟨2, Unit, unit, fun _ => .serverNotFound, fun | .serverNotFound => some () | _ => none⟩,
      ⟨3, String, text, .rejected, fun | .rejected m => some m | _ => none⟩]

def invokeOutcome : Codec InvokeOutcome :=
  choice (.unknownTag "invoke outcome")
    [⟨0, Option Value, bytes.option, .value, fun | .value v => some v | _ => none⟩,
      ⟨1, String, text, .error, fun | .error m => some m | _ => none⟩]

def returnValue : Codec (Option ReturnValue) :=
  choice (.unknownTag "return")
    [⟨0, Unit, unit, fun _ => none, fun o => if o.isNone then some () else none⟩,
      ⟨1, Option Value, bytes.option, some ∘ .previous,
        fun | some (.previous v) => some v | _ => none⟩,
      ⟨2, SortedMap Key InvokeOutcome, bytes.sortedMap invokeOutcome, some ∘ .transform,
        fun | some (.transform m) => some m | _ => none⟩]

/-- A return: the success flag, then the value. -/
def updateReturn : Codec UpdateReturn :=
  (bool.pair returnValue).imap (fun p => ⟨p.2, p.1⟩) (fun r => (r.success, r.value))

def updateEntry : Codec UpdateEntry :=
  (bytes.pair (bytes.option.pair (processorRef.option.pair (int64.pair int64)))).imap
    (fun p => ⟨p.1, p.2.1, p.2.2.1, p.2.2.2.1, p.2.2.2.2⟩)
    (fun e => (e.key, e.value, e.processor, e.ttl, e.expireTime))

def updatePayload : Codec UpdatePayload :=
  choice .unknownShape
    [⟨0, Key × Option Value, bytes.pair bytes.option, fun p => .single p.1 p.2,
        fun | .single k v => some (k, v) | _ => none⟩,
      ⟨1, Key × Option Value × List EntryFilter, bytes.pair (bytes.option.pair entryFilter.list),
        fun p => .singleFilter p.1 p.2.1 p.2.2,
        fun | .singleFilter k v fs => some (k, v, fs) | _ => none⟩,
      ⟨2, Key × ProcessorRef × List Bytes, bytes.pair (processorRef.pair bytes.list),
        fun p => .singleInvoke p.1 p.2.1 p.2.2,
        fun | .singleInvoke k f args => some (k, f, args) | _ => none⟩,
      ⟨3, List UpdateEntry × List EntryFilter × List Bytes × Option ExpiryPolicy,
        updateEntry.list.pair (entryFilter.list.pair (bytes.list.pair expiryPolicy.option)),
        fun p => .full p.1 p.2.1 p.2.2.1 p.2.2.2,
        fun | .full es fs args e => some (es, fs, args, e) | _ => none⟩]

def backupEntry : Codec BackupEntry :=
  (bytes.pair (bytes.option.pair (int64.pair (int64.pair (writeVersion.option.pair
    (bool.pair (bytes.option.pair word64))))))).imap
    (fun p => ⟨p.1, p.2.1, p.2.2.1, p.2.2.2.1, p.2.2.2.2.1, p.2.2.2.2.2.1, p.2.2.2.2.2.2.1,
      p.2.2.2.2.2.2.2⟩)
    (fun e => (e.key, e.value, e.ttl, e.conflictExpireTime, e.conflictVersion, e.sendPrevious,
      e.previous, e.updateCounter))

def nearEntry : Codec NearEntry :=
  (bytes.pair (bytes.option.pair (int64.pair int64))).imap
    (fun p => ⟨p.1, p.2.1, p.2.2.1, p.2.2.2⟩) (fun e => (e.key, e.value, e.ttl, e.expireTime))

/-- Failed keys with their causes. -/
def failedKeys : Codec (List (Key × FailureCause)) := (bytes.pair failureCause).list

end AtomicGrid.Wire.Codec
