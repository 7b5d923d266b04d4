import AtomicGrid.Failure

/-!
# Errors of the cache

`CacheError` is what the caller of an update gets when it does not succeed, `SendError` what a
node gets when a message cannot be handed on.  The texts are those of their `Display`.
-/

set_option autoImplicit false

namespace AtomicGrid

inductive CacheError where
  /-- The update makes no sense. -/
  | invalidArgument (detail : String)
  /-- Nobody owns the key's partition. -/
  | noPrimary (partition : UInt32) (version : TopologyVersion)
  /-- Some keys failed. -/
  | partialFailure (failures : FailureSet)
  /-- The update would have to wait for a newer topology and may not. -/
  | topologyMoved (version : TopologyVersion) (key : Option Key)
  /-- Keys kept failing until no attempt was left. -/
  | attemptsExhausted (remaps : UInt32) (failures : FailureSet)
  /-- The cache is stopping. -/
  | stopped (cache : String)
  /-- The primary failed as a whole. -/
  | remote (detail : String)
  /-- The update was given up by the cache itself. -/
  | internal (detail : String)
  deriving DecidableEq, Repr, Inhabited

namespace CacheError

def message : CacheError → String
  | .invalidArgument d => s!"invalid argument: {d}"
  | .noPrimary partition version =>
    s!"failed to map keys for cache (all partition nodes left the grid) [partition={partition.toNat}, topology={version.text}]"
  | .partialFailure failures => failures.message
  | .topologyMoved version _ =>
    s!"topology changed concurrently with the update [topology={version.text}]"
  | .attemptsExhausted remaps failures =>
    s!"update failed after {remaps.toNat} remap attempts: {failures.message}"
  | .stopped cache => s!"failed to perform cache operation (cache is stopped): {cache}"
  | .remote d => s!"primary failed to process update: {d}"
  | .internal d => s!"internal error: {d}"

/-- The failed keys, where there are any (`partial_failure`). -/
def failures? : CacheError → Option FailureSet
  | .partialFailure failures => some failures
  | .attemptsExhausted _ failures => some failures
  | _ => none

/-- Whether the caller may well try the whole update again. -/
def isRetriable : CacheError → Bool
  | .topologyMoved _ _ => true
  | .attemptsExhausted _ _ => true
  | .partialFailure failures => failures.isRetryable
  | _ => false

end CacheError

/-- Why a message was not handed on. -/
inductive SendError where
  /-- The receiver is no member any more. -/
  | nodeLeft (node : NodeId)
  /-- Anything else. -/
  | failed (node : NodeId) (detail : String)
  deriving DecidableEq, Repr, Inhabited

namespace SendError

def node : SendError → NodeId
  | .nodeLeft n => n
  | .failed n _ => n

def message : SendError → String
  | .nodeLeft n => s!"failed to send message, node left: {n.name}"
  | .failed n detail => s!"failed to send message to {n.name}: {detail}"

end SendError

end AtomicGrid
