import AtomicGrid.CacheError
import AtomicGrid.Data
import AtomicGrid.UpdateReturn
import AtomicGrid.Wire.Fault

/-!
# Values as plain data

Versions are lists of numbers, names stand for cases without content, and the other cases are named
fields.
-/

set_option autoImplicit false

namespace AtomicGrid

open Data (named pick)

instance : ToData NodeId := ⟨fun n => toData n.id⟩
instance : OfData NodeId := ⟨fun d => ⟨ofData d⟩⟩

instance : ToData TopologyVersion := ⟨fun v => toData (v.major, v.minor)⟩
instance : OfData TopologyVersion where
  ofData d := let (major, minor) := ofData d; ⟨major, minor⟩

instance : ToData WriteVersion := ⟨fun v => toData (v.topologyOrder, v.order, v.nodeOrder)⟩
instance : OfData WriteVersion where
  ofData d := let (topologyOrder, order, nodeOrder) := ofData d; ⟨topologyOrder, order, nodeOrder⟩

instance : ToData SyncMode := ⟨fun m => .text m.name⟩
instance : OfData SyncMode := ⟨fun d => (SyncMode.ofName? d.string).getD .fullSync⟩

instance : ToData NearRelay := ⟨fun r => .text r.name⟩
instance : OfData NearRelay := ⟨fun d => (NearRelay.ofName? d.string).getD .primary⟩

instance : ToData Operation := ⟨fun o => .text o.name⟩
instance : OfData Operation := ⟨fun d => (Operation.ofName? d.string).getD .update⟩

instance : ToData ProcessorRef := ⟨fun p => .text p.name⟩
instance : OfData ProcessorRef := ⟨fun d => ⟨d.string⟩⟩

instance : ToData EntryFilter where
  toData
    | .hasValue => .text "has_value"
    | .noValue => .text "no_value"
    | .valueEquals expected => named ["value_equals"] expected
instance : OfData EntryFilter where
  ofData
    | .fields items => .valueEquals ((Data.fields items).get "value_equals")
    | d => if d.string = "no_value" then .noValue else .hasValue

def ExpiryPolicy.names : List String := ["create", "update", "access"]

instance : ToData ExpiryPolicy := ⟨fun ⟨c, u, a⟩ => named ExpiryPolicy.names (c, u, a)⟩
instance : OfData ExpiryPolicy where
  ofData d := let (c, u, a) := pick ExpiryPolicy.names d; ⟨c, u, a⟩

instance : ToData FailureCause where
  toData
    | .nodeDeparted node => named ["node_departed"] node
    | .topologyChanged m => named ["topology_changed"] m
    | .serverNotFound => .text "server_not_found"
    | .rejected m => named ["rejected"] m
instance : OfData FailureCause where
  ofData d := match pick ["node_departed", "topology_changed", "rejected"] d with
    | (some node, _, _) => .nodeDeparted node
    | (none, some m, _) => .topologyChanged m
    | (none, none, some m) => .rejected m
    | (none, none, none) => .serverNotFound

/-! ## Returns -/

instance : ToData InvokeOutcome where
  toData
    | .value v => named ["value"] v
    | .error m => named ["error"] m
instance : OfData InvokeOutcome where
  ofData d := match pick ["error", "value"] d with
    | (some m, _) => .error m
    | (none, v) => .value v

instance : ToData ReturnValue where
  toData
    | .previous v => named ["previous"] v
    | .transform outcomes => named ["transform"] outcomes.entries
instance : OfData ReturnValue where
  ofData d := match pick ["transform", "previous"] d with
    | (some entries, _) => .transform (.ofList entries)
    | (none, v) => .previous v

instance : ToData UpdateReturn := ⟨fun r => named ["success", "value"] (r.success, r.value)⟩
instance : OfData UpdateReturn := ⟨fun d => ⟨d.get "value", d.get "success"⟩⟩

instance : ToData UpdateOutcome where
  toData o :=
    let shown {α : Type} [ToData α] (name : String) (value : α) : Data :=
      named ["is_success", name] (o.isSuccess, value)
    match o with
    | .success flag => shown "success" flag
    | .previous v => shown "previous" v
    | .transform outcomes => shown "transform" outcomes.entries
    | .raw ret => shown "raw" ret

/-! ## Errors -/

instance : ToData FailureSet where
  toData s := toData (s.failures.entries.map fun e => (e.1, e.2.cause, e.2.topologyVersion))
instance : OfData FailureSet where
  ofData d := (ofData d : List (Key × FailureCause × TopologyVersion)).foldl
    (fun s f => s.record f.1 ⟨f.2.1, f.2.2⟩) ∅

/-- The name under which an error is reported. -/
def CacheError.kind : CacheError → String
  | .invalidArgument _ => "InvalidArgument"
  | .noPrimary _ _ => "NoPrimaryAvailable"
  | .partialFailure _ => "PartialUpdateFailure"
  | .topologyMoved _ _ => "ConcurrentTopologyChange"
  | .attemptsExhausted _ _ => "RemapBudgetExhausted"
  | .stopped _ => "CacheStopped"
  | .remote _ => "Remote"
  | .internal _ => "Internal"

instance : ToData CacheError where
  toData e :=
    let d := named ["error", "message", "retriable"] (e.kind, e.message, e.isRetriable)
    match e with
    | .topologyMoved _ key => d.withField "key" (toData key)
    | _ =>
      match e.failures? with
      | some failures => d.withField "failed" (toData failures)
      | none => d
instance : OfData CacheError where
  ofData d :=
    let detail := (d.field "message").string
    [.invalidArgument detail, .noPrimary (d.get "partition") (d.get "topology"),
      .partialFailure (d.get "failed"), .topologyMoved (d.get "topology") (d.get "key"),
      .attemptsExhausted (d.get "remaps") (d.get "failed"), .stopped detail, .remote detail].find?
      (fun e : CacheError => e.kind = (d.field "kind").string) |>.getD (.internal detail)

/-- A result is shown as its value or its error. -/
instance {α : Type} [ToData α] : ToData (Except CacheError α) where
  toData
    | .ok a => toData a
    | .error e => toData e

instance : ToData SendError where
  toData e :=
    let kind := match e with
      | .nodeLeft _ => "NodeLeft"
      | .failed _ _ => "Failed"
    named ["error", "message", "node"] (kind, e.message, e.node)

instance : ToData Wire.WireError where
  toData e :=
    let kind := match e with
      | .unknownKind _ => "UnknownKind"
      | .malformed _ _ => "Malformed"
      | .fieldCount _ _ => "FieldCount"
    named ["error", "message"] (kind, e.message)

end AtomicGrid
