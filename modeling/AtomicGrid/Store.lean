import AtomicGrid.Message
import AtomicGrid.Processor

/-!
# The store of a node

A `Store` holds what a node keeps of every partition, as `MemoryStore` does: the entries of keys
with a value, the versions of removed keys, and an update counter per partition.  `apply` carries
out an update on the primary, `applyBackup` repeats its outcome on a backup (`apply_backup`), and
both write through `write` (`write_value`).

The primary applies updates in the order they come.  A backup ignores what is not newer than what
it has, and remembers removals so that late writes lose against them.

Nothing in the type keeps a key out of one of the two maps while it is in the other.  That is what
`write` sees to.

## Results

* `counters_write`, `readers_write`: what a write leaves alone.
-/

set_option autoImplicit false

namespace AtomicGrid

/-- A value as it is kept. -/
structure StoredEntry where
  value : Value
  version : WriteVersion
  ttl : Int64
  deriving DecidableEq, Repr, Inhabited

/-- An update to be applied on the primary. -/
structure WriteCommand where
  key : Key
  operation : Operation
  value : Option Value
  processor : Option ProcessorRef
  args : List Bytes
  filters : List EntryFilter
  expiry : Option ExpiryPolicy
  version : WriteVersion
  deriving DecidableEq, Repr, Inhabited

/-- The effect of an update on the primary. -/
structure AppliedWrite where
  /-- The value before. -/
  previous : Option Value
  /-- The value after. -/
  newValue : Option Value
  /-- The outcome of the entry processor, if one ran. -/
  invoke : Option InvokeOutcome
  /-- Whether the update was held back and nothing changed. -/
  filtered : Bool
  /-- The update counter of the partition after. -/
  updateCounter : UInt64
  /-- The life time to hand on to the backups. -/
  ttl : Int64
  deriving DecidableEq, Repr, Inhabited

/-- What a node keeps. -/
structure Store where
  entries : SortedMap Key StoredEntry := ∅
  /-- The versions of removed keys. -/
  removed : SortedMap Key WriteVersion := ∅
  counters : SortedMap UInt32 UInt64 := ∅
  /-- The nodes whose near caches hold a key, in the order they came. -/
  readers : SortedMap Key (List NodeId) := ∅
  deriving DecidableEq, Repr, Inhabited

namespace Store

/-- The entry of a key, if it has a value. -/
def live? (s : Store) (key : Key) : Option StoredEntry := s.entries.get? key

/-- The version of the removal of a key, if it is marked as removed. -/
def removal? (s : Store) (key : Key) : Option WriteVersion := s.removed.get? key

def get? (s : Store) (key : Key) : Option Value := (s.live? key).map (·.value)

/-- The version of the last write to a key.  It is looked for among the entries first. -/
def version? (s : Store) (key : Key) : Option WriteVersion :=
  ((s.live? key).map (·.version)).or (s.removal? key)

def ttl? (s : Store) (key : Key) : Option Int64 := (s.live? key).map (·.ttl)

/-- The update counter of a partition. -/
def updateCounter (s : Store) (partition : UInt32) : UInt64 := (s.counters.get? partition).getD 0

/-- The number of keys with a value. -/
def size (s : Store) : Nat := s.entries.size

/-- The nodes whose near caches hold a key. -/
def readersOf (s : Store) (key : Key) : List NodeId := (s.readers.get? key).getD []

/-- Notes that the near cache of a node holds a key. -/
def addReader (s : Store) (key : Key) (node : NodeId) : Store :=
  let nodes := s.readersOf key
  { s with readers := s.readers.insert key (if node ∈ nodes then nodes else nodes ++ [node]) }

/-- Writes a value or a removal, and erases the key from the other map.  The life time of an entry
stays when it is not to change. -/
def write (s : Store) (key : Key) (value : Option Value) (version : WriteVersion) (ttl : Int64) :
    Store :=
  match value with
  | some value =>
    let ttl := if ttl = ttlUnchanged then (s.ttl? key).getD ttl else ttl
    { s with
      entries := s.entries.insert key ⟨value, version, ttl⟩
      removed := s.removed.erase key }
  | none =>
    { s with
      entries := s.entries.erase key
      removed := s.removed.insert key version }

/-- Counts an update of a partition. -/
def countUpdate (s : Store) (partition : UInt32) : Store :=
  { s with counters := s.counters.insert partition (s.updateCounter partition + 1) }

/-- The value after an update and what its entry processor came to. -/
inductive Computed where
  /-- The new value, and the processor's outcome if one ran. -/
  | value (new : Option Value) (invoke : Option InvokeOutcome)
  /-- The processor failed. -/
  | processorError (message : String)
  /-- There is no such processor. -/
  | refused (cause : FailureCause)

/-- What an update makes of the current value. -/
def compute (processors : Processors) (w : WriteCommand) (current : Option Value) : Computed :=
  match w.operation with
  | .update => .value w.value none
  | .delete => .value none none
  | .transform =>
    match w.processor with
    | none => .refused (.rejected "transform without entry processor")
    | some ref =>
      match processors ref.name with
      | none => .refused (.rejected s!"unknown entry processor: {ref.name}")
      | some process =>
        match process current w.args with
        | .ok (new, result) => .value new (some (.value result))
        | .error message => .processorError message

/-- Carries out an update on the primary.  Nothing changes if a condition does not hold, if the
entry processor fails, or if there is no such processor. -/
def apply (processors : Processors) (s : Store) (partition : UInt32) (w : WriteCommand) :
    Store × Except FailureCause AppliedWrite :=
  let previous := s.get? w.key
  if w.filters.all (·.accepts previous) then
    match compute processors w previous with
    | .value new invoke =>
      let ttl := match w.expiry with
        | some policy => policy.ttlForWrite previous.isSome
        | none => ttlUnchanged
      let s := (s.write w.key new w.version ttl).countUpdate partition
      (s, .ok ⟨previous, new, invoke, false, s.updateCounter partition, ttl⟩)
    | .processorError message =>
      (s, .ok ⟨previous, previous, some (.error message), true, s.updateCounter partition, 0⟩)
    | .refused cause => (s, .error cause)
  else (s, .ok ⟨previous, none, none, true, s.updateCounter partition, 0⟩)

/-- Repeats the outcome of an update on a backup, unless the key was written as late or later. -/
def applyBackup (s : Store) (partition : UInt32) (e : BackupEntry) (version : WriteVersion) :
    Store :=
  if (s.version? e.key).any (version ≤ ·) then s
  else
    let counter := s.updateCounter partition
    { s.write e.key e.value version e.ttl with
      counters := s.counters.insert partition
        (if counter < e.updateCounter then e.updateCounter else counter) }

section

variable (s : Store) (key : Key) (value : Option Value) (version : WriteVersion) (ttl : Int64)

@[simp] theorem counters_write : (s.write key value version ttl).counters = s.counters := by
  cases value <;> rfl

@[simp] theorem readers_write : (s.write key value version ttl).readers = s.readers := by
  cases value <;> rfl

end

end Store

end AtomicGrid
