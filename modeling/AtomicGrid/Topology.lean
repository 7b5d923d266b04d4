import AtomicGrid.CacheError

/-!
# The topology as a node sees it

Model of `TopologyTracker` and its `TopologySnapshot`.

* `Topology` — the current version, whether its partition assignment is settled, and the nodes of
  the versions not long past.
* `beginExchange`, `completeExchange` — a change of membership starts an exchange at the next major
  version; until it completes the version is not ready, and nothing is mapped on it.
* `moveTo` — what `begin_exchange` and `bump_minor` share, with `record`: the nodes of the last
  `historyLimit` recorded versions are kept (`HISTORY_LIMIT`), so that `nodes_at` finds owners for
  requests mapped a while ago.
* `awaited` — what `wait_ready` looks at on each announcement.
-/

set_option autoImplicit false

namespace AtomicGrid

/-- The number of versions whose nodes are kept (`HISTORY_LIMIT`). -/
def historyLimit : Nat := 64

/-- The state of membership and partition assignment. -/
structure Topology where
  version : TopologyVersion
  /-- Whether the exchange for `version` is over. -/
  ready : Bool
  /-- Whether the cache is stopping. -/
  stopping : Bool
  /-- The members at `version`. -/
  nodes : NodeSet
  /-- The members at the versions recorded last. -/
  history : SortedMap TopologyVersion NodeSet
  /-- How often anything was announced to those who watch. -/
  announcements : Nat
  deriving DecidableEq, Repr, Inhabited

namespace Topology

/-- The first version, ready, with the given members. -/
def start (nodes : List NodeId) : Topology :=
  let members := SortedSet.ofList nodes
  { version := ⟨1, 0⟩, ready := true, stopping := false, nodes := members,
    history := (∅ : SortedMap TopologyVersion NodeSet).insert ⟨1, 0⟩ members, announcements := 0 }

def isAlive (t : Topology) (n : NodeId) : Bool := t.nodes.contains n

/-- The members at the newest recorded version that is not after `v`. -/
def nodesAt (t : Topology) (v : TopologyVersion) : Option NodeSet := t.history.getLE? v

/-- Moves on to a version and records its members. -/
def moveTo (t : Topology) (v : TopologyVersion) (members : NodeSet) (ready : Bool) : Topology :=
  { t with
    version := v, ready, nodes := members
    history := (t.history.insert v members).keepLast historyLimit
    announcements := t.announcements + 1 }

/-- Starts the exchange for a new membership. -/
def beginExchange (t : Topology) (nodes : List NodeId) : Topology :=
  t.moveTo t.version.nextMajor (SortedSet.ofList nodes) false

/-- Ends the exchange for the current version. -/
def completeExchange (t : Topology) : Topology :=
  { t with ready := true, announcements := t.announcements + 1 }

/-- Changes the partition assignment of the same members, at once (`bump_minor`): an exchange that
is not over is not waited for. -/
def bumpMinor (t : Topology) : Topology := t.moveTo t.version.nextMinor t.nodes true

/-- A member leaves: a whole exchange without it (`node_left`). -/
def nodeLeft (t : Topology) (n : NodeId) : Topology :=
  (t.beginExchange (t.nodes.toList.filter (· ≠ n))).completeExchange

/-- A node joins: a whole exchange with it (`node_joined`). -/
def nodeJoined (t : Topology) (n : NodeId) : Topology :=
  (t.beginExchange (t.nodes.toList ++ [n])).completeExchange

def stop (t : Topology) : Topology :=
  { t with stopping := true, announcements := t.announcements + 1 }

/-- What one who waits for a version at or after `v` gets: nothing yet, the ready version, or the
news that the cache is stopping. -/
def awaited (t : Topology) (v : TopologyVersion) : Option (Except CacheError TopologyVersion) :=
  if t.stopping then some (.error (.stopped ""))
  else if t.ready ∧ v ≤ t.version then some (.ok t.version)
  else none

end Topology

end AtomicGrid
