import AtomicGrid.Affinity
import AtomicGrid.Config

/-!
# Where a node stands

The parts of `CacheContext` that are not the node's own state.  A `Site` is what does not change
about a cache on one node, a `View` what the node sees of the grid while it handles one event: the
topology, the owners of keys, and whether messages get through.
-/

set_option autoImplicit false

namespace AtomicGrid

structure Site where
  node : NodeId
  cacheId : UInt32
  cacheName : String
  settings : AtomicSettings
  deriving DecidableEq, Repr, Inhabited

/-- The site that a configuration describes. -/
def Site.ofConfig (c : Config) : Site where
  node := ⟨c.nodeId⟩
  cacheId := c.cacheId
  cacheName := c.cacheName
  settings := c.atomic

structure View where
  topology : Topology
  affinity : Affinity
  /-- Why a message to a node is not handed on, if it is not. -/
  refusal : NodeId → Option SendError

namespace View

def partition (w : View) (key : Key) : UInt32 := w.affinity.partition key

/-- The owners of a key at a version, the primary first. -/
def owners (w : View) (key : Key) (v : TopologyVersion) : List NodeId :=
  w.affinity.keyOwners w.topology key v

def primary (w : View) (key : Key) (v : TopologyVersion) : Option NodeId :=
  w.affinity.primary w.topology key v

def reaches (w : View) (n : NodeId) : Bool := (w.refusal n).isNone

end View

end AtomicGrid
