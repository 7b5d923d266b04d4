import AtomicGrid.Update.Entry

/-!
# Payloads

The keys of an update request and what is to be done with them.  The usual update of one key
travels in one of three compact shapes; the full shape carries anything.  Which shape it is `build`
decides: without life times an entry processor gets its own compact shape, which has no room for
conditions.
-/

set_option autoImplicit false

namespace AtomicGrid

structure UpdateEntry where
  key : Key
  value : Option Value
  processor : Option ProcessorRef
  ttl : Int64
  expireTime : Int64
  deriving DecidableEq, Repr, Inhabited

/-- An entry whose life time the update leaves as it is. -/
def UpdateEntry.plain (key : Key) (value : Option Value) (processor : Option ProcessorRef) :
    UpdateEntry :=
  ⟨key, value, processor, ttlUnchanged, expireByTtl⟩

/-- The part of an update request that depends on the operation. -/
inductive UpdatePayload where
  /-- One key, to be stored or removed. -/
  | single (key : Key) (value : Option Value)
  /-- One key, to be stored or removed under conditions. -/
  | singleFilter (key : Key) (value : Option Value) (filters : List EntryFilter)
  /-- One key for an entry processor. -/
  | singleInvoke (key : Key) (processor : ProcessorRef) (args : List Bytes)
  /-- Any number of keys with conditions, processor arguments and life times. -/
  | full (entries : List UpdateEntry) (filters : List EntryFilter) (args : List Bytes)
      (expiry : Option ExpiryPolicy)
  deriving DecidableEq, Repr

namespace UpdatePayload

instance : Inhabited UpdatePayload := ⟨.single [] none⟩

/-- The shape for an update. -/
def build (entries : List UpdateEntry) (filters : List EntryFilter) (args : List Bytes)
    (expiry : Option ExpiryPolicy) : UpdatePayload :=
  match expiry, entries with
  | none, [e] =>
    match e.processor with
    | some processor => .singleInvoke e.key processor args
    | none =>
      if filters.isEmpty then .single e.key e.value else .singleFilter e.key e.value filters
  | _, _ => .full entries filters args expiry

def keys : UpdatePayload → List Key
  | .single key _ => [key]
  | .singleFilter key _ _ => [key]
  | .singleInvoke key _ _ => [key]
  | .full entries _ _ _ => entries.map (·.key)

/-- The entries, in order. -/
def entries : UpdatePayload → List UpdateEntry
  | .single key value => [.plain key value none]
  | .singleFilter key value _ => [.plain key value none]
  | .singleInvoke key processor _ => [.plain key none (some processor)]
  | .full entries _ _ _ => entries

def filters : UpdatePayload → List EntryFilter
  | .singleFilter _ _ filters => filters
  | .full _ filters _ _ => filters
  | _ => []

def args : UpdatePayload → List Bytes
  | .singleInvoke _ _ args => args
  | .full _ _ args _ => args
  | _ => []

/-- The life times. -/
def expiry : UpdatePayload → Option ExpiryPolicy
  | .full _ _ _ expiry => expiry
  | _ => none

/-- Whether the shape is one of the compact ones. -/
def isSingle : UpdatePayload → Bool
  | .full _ _ _ _ => false
  | _ => true

end UpdatePayload

end AtomicGrid
