import AtomicGrid.Data.Values
import AtomicGrid.Message

/-!
# Messages as plain data

A message is its kind and its fields by name, those of the envelope first.  Flags are shown as the
byte they travel in.
-/

set_option autoImplicit false

namespace AtomicGrid

open Data (named pick)

instance : ToData RequestFlags := ⟨fun f => toData f.bits⟩
instance : OfData RequestFlags := ⟨fun d => .ofBits (ofData d)⟩
instance : ToData BackupFlags := ⟨fun f => toData f.bits⟩
instance : OfData BackupFlags := ⟨fun d => .ofBits (ofData d)⟩
instance : ToData NoticeFlags := ⟨fun f => toData f.bits⟩
instance : OfData NoticeFlags := ⟨fun d => .ofBits (ofData d)⟩

/-! ## Entries and payloads -/

def UpdateEntry.names : List String := ["key", "value", "processor", "ttl", "expire_time"]

instance : ToData UpdateEntry := ⟨fun ⟨a, b, c, d, e⟩ => named UpdateEntry.names (a, b, c, d, e)⟩
instance : OfData UpdateEntry where
  ofData x := let (a, b, c, d, e) := pick UpdateEntry.names x; ⟨a, b, c, d, e⟩

def BackupEntry.names : List String :=
  ["key", "value", "ttl", "conflict_expire_time", "conflict_version", "send_previous", "previous",
    "update_counter"]

instance : ToData BackupEntry :=
  ⟨fun ⟨a, b, c, d, e, f, g, h⟩ => named BackupEntry.names (a, b, c, d, e, f, g, h)⟩
instance : OfData BackupEntry where
  ofData x := let (a, b, c, d, e, f, g, h) := pick BackupEntry.names x; ⟨a, b, c, d, e, f, g, h⟩

def NearEntry.names : List String := ["key", "value", "ttl", "expire_time"]

instance : ToData NearEntry := ⟨fun ⟨a, b, c, d⟩ => named NearEntry.names (a, b, c, d)⟩
instance : OfData NearEntry where
  ofData x := let (a, b, c, d) := pick NearEntry.names x; ⟨a, b, c, d⟩

instance : ToData UpdatePayload where
  toData
    | .single key value => named ["shape", "key", "value"] ("single", key, value)
    | .singleFilter key value filters =>
      named ["shape", "key", "value", "filters"] ("single_filter", key, value, filters)
    | .singleInvoke key processor args =>
      named ["shape", "key", "processor", "args"] ("single_invoke", key, processor, args)
    | .full entries filters args expiry =>
      named ["shape", "entries", "filters", "args", "expiry"]
        ("full", entries, filters, args, expiry)
instance : OfData UpdatePayload where
  ofData d :=
    let shape := (d.field "shape").string
    if shape = "single_filter" then
      .singleFilter (d.get "key") (d.get "value") (d.get "filters")
    else if shape = "single_invoke" then
      .singleInvoke (d.get "key") (d.get "processor") (d.get "args")
    else if shape = "full" then
      .full (d.get "entries") (d.get "filters") (d.get "args") (d.get "expiry")
    else .single (d.get "key") (d.get "value")

/-! ## Messages -/

def Envelope.names : List String := ["cache_id", "partition", "future_id"]

def MessageKind.names (k : MessageKind) : List String :=
  Envelope.names ++ match k with
    | .updateRequest => ["write_version", "topology_version", "sync_mode", "operation", "flags",
        "payload", "subject_id", "task_name_hash"]
    | .backupRequest => ["near_future_id", "near_node", "write_version", "topology_version",
        "sync_mode", "flags", "entries", "near_entries", "invoke_args", "mapping", "subject_id",
        "task_name_hash"]
    | .updateResponse => ["node_id", "ret", "failed_keys", "error", "remap_keys",
        "remap_topology_version", "mapping", "near_version", "near_values"]
    | .mappingNotice => ["mapping"]
    | .backupNotice => ["primary_id", "mapping", "failed_node", "flags"]
    | .checkRequest => ["update_request"]

instance : ToData Envelope := ⟨fun e => toData (e.cacheId, e.partition, e.future)⟩
instance : OfData Envelope where
  ofData x := let (a, b, c) := pick Envelope.names x; ⟨a, b, c⟩

instance : OfData UpdateRequest where
  ofData x :=
    let (a, b, c, d, e, f, g, h, i, j, k) := pick (MessageKind.names .updateRequest) x
    ⟨⟨a, b, c⟩, d, e, f, g, h, i, j, k⟩

instance : OfData BackupRequest where
  ofData x :=
    let (a, b, c, d, e, f, g, h, i, j, k, l, m, n, o) := pick (MessageKind.names .backupRequest) x
    ⟨⟨a, b, c⟩, d, e, f, g, h, i, j, k, l, m, n, o⟩

instance : OfData UpdateResponse where
  ofData x :=
    let (a, b, c, d, e, f, g, h, i, j, k, l) := pick (MessageKind.names .updateResponse) x
    ⟨⟨a, b, c⟩, d, e, f, g, h, i, j, k, l⟩

instance : OfData MappingNotice := ⟨fun d => ⟨ofData d, d.get "mapping"⟩⟩

instance : OfData BackupNotice where
  ofData d :=
    ⟨ofData d, d.get "primary_id", d.get "mapping", d.get "failed_node", d.get "flags"⟩

/-- The fields of a message, without its kind. -/
def Message.fieldData (x : Message) : Data :=
  let names := x.kind.names
  match x with
  | .updateRequest ⟨⟨a, b, c⟩, d, e, f, g, h, i, j, k⟩ =>
    named names (a, b, c, d, e, f, g, h, i, j, k)
  | .backupRequest ⟨⟨a, b, c⟩, d, e, f, g, h, i, j, k, l, m, n, o⟩ =>
    named names (a, b, c, d, e, f, g, h, i, j, k, l, m, n, o)
  | .updateResponse ⟨⟨a, b, c⟩, d, e, f, g, h, i, j, k, l⟩ =>
    named names (a, b, c, d, e, f, g, h, i, j, k, l)
  | .mappingNotice ⟨⟨a, b, c⟩, d⟩ => named names (a, b, c, d)
  | .backupNotice ⟨⟨a, b, c⟩, d, e, f, g⟩ => named names (a, b, c, d, e, f, g)
  | .checkRequest ⟨⟨a, b, c⟩, d⟩ => named names (a, b, c, d.map (·.future))

instance : ToData Message := ⟨fun m => m.fieldData.withField "kind" (.text m.kind.name)⟩

/-- The message of a kind; what only its sender knows is not taken. -/
def Message.ofFieldData (d : Data) : MessageKind → Message
  | .updateRequest => .updateRequest (ofData d)
  | .backupRequest => .backupRequest (ofData d)
  | .updateResponse => .updateResponse (ofData d)
  | .mappingNotice => .mappingNotice (ofData d)
  | .backupNotice => .backupNotice (ofData d)
  | .checkRequest => .checkRequest ⟨ofData d, none⟩

def MessageKind.all : List MessageKind :=
  [.updateRequest, .backupRequest, .updateResponse, .mappingNotice, .backupNotice, .checkRequest]

instance : OfData Message where
  ofData d := Message.ofFieldData d
    ((MessageKind.all.find? (·.name = (d.field "kind").string)).getD .updateRequest)

end AtomicGrid
