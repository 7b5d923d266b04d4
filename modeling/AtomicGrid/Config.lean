import AtomicGrid.Bytes.Utf8
import AtomicGrid.Hash
import AtomicGrid.Update.Mode

/-!
# Configuration of a node

A `Config` names the node and the cache it serves, and holds the settings every update starts from
(`AtomicConfig`).  `fault?` says what makes a configuration useless (`validate`).

## Results

* `Config.fault?_eq_none_iff`: when a configuration can be used.
-/

set_option autoImplicit false

namespace AtomicGrid

/-- How updates run unless they say otherwise. -/
structure AtomicSettings where
  writeSyncMode : SyncMode := .fullSync
  /-- How often an update may be mapped again after keys failed for the topology's sake. -/
  remapCount : UInt32 := 32
  /-- Whether an update waits for the topology instead of failing. -/
  waitForTopology : Bool := true
  nearRelay : NearRelay := .primary
  /-- Whether the primary tells the caller's node which backups to hear from. -/
  sendMapping : Bool := false
  partitions : UInt32 := 1024
  backups : UInt32 := 1
  /-- Whether the node keeps a near cache. -/
  nearCache : Bool := false
  deriving DecidableEq, Repr, Inhabited

/-- The configuration of a node. -/
structure Config where
  nodeId : UInt64
  cacheName : String := "default"
  atomic : AtomicSettings := {}
  logLevel : String := "info"
  deriving DecidableEq, Repr, Inhabited

/-- The number by which messages name a cache. -/
def cacheIdOf (name : String) : UInt32 := (Hash.hash64 0 (Utf8.encode name)).toUInt32

/-- What makes a configuration useless. -/
inductive ConfigFault where
  | noCacheName
  | noPartitions
  | mappingWithoutRelay
  | unknownLogLevel (level : String)
  deriving DecidableEq, Repr, Inhabited

def ConfigFault.message : ConfigFault → String
  | .noCacheName => "node.cache_name must not be empty"
  | .noPartitions => "atomic.partitions must be > 0"
  | .mappingWithoutRelay =>
    "atomic.send_mapping_to_near requires atomic.near_relay = \"backups\""
  | .unknownLogLevel level =>
    "telemetry.log_level must be one of [\"trace\", \"debug\", \"info\", \"warn\", \"error\"], got: "
      ++ level

/-- Settings that take the place of configured ones. -/
structure ConfigOverrides where
  logLevel : Option String := none
  nodeId : Option UInt64 := none
  writeSyncMode : Option SyncMode := none
  remapCount : Option UInt32 := none
  deriving DecidableEq, Repr, Inhabited

namespace Config

/-- The levels of logging, the most talkative first. -/
def logLevels : List String := ["trace", "debug", "info", "warn", "error"]

def cacheId (c : Config) : UInt32 := cacheIdOf c.cacheName

/-- The first fault of a configuration. -/
def fault? (c : Config) : Option ConfigFault :=
  if c.cacheName = "" then some .noCacheName
  else if c.atomic.partitions = 0 then some .noPartitions
  else if c.atomic.sendMapping ∧ c.atomic.nearRelay ≠ .backups then some .mappingWithoutRelay
  else if c.logLevel ∈ logLevels then none
  else some (.unknownLogLevel c.logLevel)

/-- The configuration with some settings replaced. -/
def override (c : Config) (o : ConfigOverrides) : Config :=
  { c with
    nodeId := o.nodeId.getD c.nodeId
    logLevel := o.logLevel.getD c.logLevel
    atomic := { c.atomic with
      writeSyncMode := o.writeSyncMode.getD c.atomic.writeSyncMode
      remapCount := o.remapCount.getD c.atomic.remapCount } }

theorem fault?_eq_none_iff (c : Config) :
    c.fault? = none ↔ c.cacheName ≠ "" ∧ c.atomic.partitions ≠ 0 ∧
      (c.atomic.sendMapping → c.atomic.nearRelay = .backups) ∧ c.logLevel ∈ logLevels := by
  unfold fault?
  grind

end Config

end AtomicGrid
