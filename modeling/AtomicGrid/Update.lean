import AtomicGrid.CacheError
import AtomicGrid.Message.Flags
import AtomicGrid.Message.Payload
import AtomicGrid.Update.Mode

/-!
# Updates

Model of `UpdateOp`.  An `Update` is what a caller asks for: one key, what to do with it, and how.
`fault?` finds those that make no sense before anything is sent.

## Results

* `Update.fault?_put`: a value can be put under any key that is not empty.
-/

set_option autoImplicit false

namespace AtomicGrid

/-- An update of one key, as its caller asks for it. -/
structure Update where
  operation : Operation
  key : Key
  value : Option Value := none
  processor : Option ProcessorRef := none
  /-- The arguments of the entry processor. -/
  args : List Bytes := []
  filters : List EntryFilter := []
  expiry : Option ExpiryPolicy := none
  /-- Whom to wait for, if not as the cache is configured. -/
  syncMode : Option SyncMode := none
  /-- Whether the caller wants the value before the update instead of the success flag. -/
  wantsPrevious : Bool := false
  /-- Whether the caller wants the primary's return as it is. -/
  raw : Bool := false
  /-- Whether the update fails rather than being mapped again when the topology changes. -/
  topologyLocked : Bool := false
  skipStore : Bool := false
  keepBinary : Bool := false
  taskNameHash : UInt32 := 0
  deriving DecidableEq, Repr, Inhabited

namespace Update

def put (key : Key) (value : Value) : Update := { operation := .update, key, value := some value }

/-- Stores a value for a caller who wants the one before. -/
def getAndPut (key : Key) (value : Value) : Update := { put key value with wantsPrevious := true }

def remove (key : Key) : Update := { operation := .delete, key }

def invoke (key : Key) (processor : ProcessorRef) (args : List Bytes) : Update :=
  { operation := .transform, key, processor := some processor, args }

/-- What makes no sense about an update (`validate`). -/
def fault? (u : Update) : Option CacheError :=
  if u.key.isEmpty then some (.invalidArgument "null key")
  else if u.operation = .update ∧ u.value.isNone then some (.invalidArgument "null value")
  else if u.operation = .transform ∧ u.processor.isNone then
    some (.invalidArgument "null entry processor")
  else none

def flags (u : Update) : RequestFlags where
  topologyLocked := u.topologyLocked
  returnValue := u.wantsPrevious
  skipStore := u.skipStore
  keepBinary := u.keepBinary

/-- What the request asks the primary to do. -/
def payload (u : Update) : UpdatePayload :=
  .build [.plain u.key u.value u.processor] u.filters u.args u.expiry

/-- The life time with which the caller's own near cache keeps the value. -/
def nearTtl (u : Update) : Int64 :=
  match u.expiry with
  | some policy => policy.ttlForWrite true
  | none => ttlUnchanged

theorem fault?_put {key : Key} (h : key ≠ []) (value : Value) : (put key value).fault? = none := by
  simp [fault?, put, h]

end Update

end AtomicGrid
