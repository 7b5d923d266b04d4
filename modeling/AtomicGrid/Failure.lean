import AtomicGrid.Update.Entry
import AtomicGrid.Version

/-!
# Failed keys

Model of `FailureCause`, `KeyFailure` and `PartialUpdateError`.  An update fails key by key, each
with a cause.  A `FailureSet` gathers the failures of all attempts (`insert`, `add`, `merge`): the
record of a key is the one seen on the newest topology, the later of two on the same.

## Results

* `FailureSet.get?_record`: what recording one failure does to look-ups.
-/

set_option autoImplicit false

namespace AtomicGrid

/-- Why one key failed. -/
inductive FailureCause where
  /-- The node in charge left before it answered. -/
  | nodeDeparted (node : NodeId)
  /-- The topology changed while the update was under way. -/
  | topologyChanged (message : String)
  /-- No node owns the key's partition. -/
  | serverNotFound
  /-- The store or the entry processor refused the update. -/
  | rejected (message : String)
  deriving DecidableEq, Repr, Inhabited

namespace FailureCause

def message : FailureCause → String
  | .nodeDeparted node => s!"node left grid before response is received: {node.name}"
  | .topologyChanged m => s!"topology changed: {m}"
  | .serverNotFound => "no server node found for partition"
  | .rejected m => s!"update rejected: {m}"

/-- Whether the topology is to blame. -/
def isTopology : FailureCause → Bool
  | .rejected _ => false
  | _ => true

/-- Whether trying again on a newer topology can help. -/
def isRetryable : FailureCause → Bool
  | .nodeDeparted _ => true
  | .topologyChanged _ => true
  | _ => false

end FailureCause

/-- The failure of one key and the topology version of the attempt it failed in. -/
structure KeyFailure where
  cause : FailureCause
  topologyVersion : TopologyVersion
  deriving DecidableEq, Repr, Inhabited

structure FailureSet where
  failures : SortedMap Key KeyFailure
  deriving DecidableEq, Repr, Inhabited

namespace FailureSet

def empty : FailureSet := ⟨∅⟩

instance : EmptyCollection FailureSet := ⟨empty⟩

def get? (s : FailureSet) (k : Key) : Option KeyFailure := s.failures.get? k

/-- Records a failure, unless the key failed on a newer topology before. -/
def record (s : FailureSet) (k : Key) (f : KeyFailure) : FailureSet :=
  match s.get? k with
  | some old => if f.topologyVersion < old.topologyVersion then s else ⟨s.failures.insert k f⟩
  | none => ⟨s.failures.insert k f⟩

/-- Records the same cause for several keys. -/
def add (s : FailureSet) (keys : List Key) (cause : FailureCause) (version : TopologyVersion) :
    FailureSet :=
  keys.foldl (fun s k => s.record k ⟨cause, version⟩) s

def merge (s other : FailureSet) : FailureSet :=
  other.failures.entries.foldl (fun s e => s.record e.1 e.2) s

def isEmpty (s : FailureSet) : Bool := s.failures.isEmpty

def size (s : FailureSet) : Nat := s.failures.size

def keys (s : FailureSet) : List Key := s.failures.keys

/-- The newest topology version on which a key failed. -/
def topologyVersion? (s : FailureSet) : Option TopologyVersion :=
  s.failures.values.foldl
    (fun v f => some (match v with
      | some v => v.max f.topologyVersion
      | none => f.topologyVersion)) none

/-- Whether trying again can help: some key failed for a reason that passes, and none for want of
an owner. -/
def isRetryable (s : FailureSet) : Bool :=
  s.failures.values.any (·.cause.isRetryable) &&
    !s.failures.values.any (·.cause = .serverNotFound)

/-- The number of failed keys and the cause of the smallest one. -/
def message (s : FailureSet) : String :=
  let cause := match s.failures.entries with
    | e :: _ => s!", cause={e.2.cause.message}"
    | [] => ""
  s!"failed to update keys (retry update if possible) [failed={s.size}{cause}]"

theorem get?_record (s : FailureSet) (k k' : Key) (f : KeyFailure) :
    (s.record k f).get? k' =
      if k' = k then
        match s.get? k with
        | some old => if f.topologyVersion < old.topologyVersion then some old else some f
        | none => some f
      else s.get? k' := by
  unfold record
  by_cases h : k' = k
  · subst h
    split
    next old ho =>
      by_cases hv : f.topologyVersion < old.topologyVersion
      · simpa [hv] using ho
      · simp [hv, get?]
    next => simp [get?]
  · split
    next old ho =>
      by_cases hv : f.topologyVersion < old.topologyVersion
      · simp [hv, h]
      · simp [hv, h, get?, SortedMap.get?_insert_of_ne]
    next => simp [h, get?, SortedMap.get?_insert_of_ne]

end FailureSet

end AtomicGrid
