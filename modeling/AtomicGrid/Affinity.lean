import AtomicGrid.Hash
import AtomicGrid.Topology

/-!
# Who owns a key

Model of `RendezvousAffinity` and the functions of `AffinityResolver` (`partition`, `nodes`,
`primary`, `backups`).  Keys are spread over partitions by a hash (`compute_partition`), and every
partition ranks the nodes by another hash (`node_weight`): the node with the highest weight is the
primary, the next ones are the backups.  A node that leaves takes its place in the ranking with it
and moves nobody else.

A version whose nodes are not recorded any more has no owners.
-/

set_option autoImplicit false

namespace AtomicGrid

/-- The seed of the hash that spreads keys over partitions (`KEY_HASH_SEED`). -/
def partitionSeed : UInt64 := 0x5eedcafe

/-- The partition of a key, of at least one. -/
def partitionOf (key : Key) (partitions : UInt32) : UInt32 :=
  (Hash.hash64 partitionSeed key % (if partitions = 0 then 1 else partitions).toUInt64).toUInt32

/-- The weight of a node in a partition: the hash of its number, written little endian. -/
def nodeWeight (partition : UInt32) (n : NodeId) : UInt64 :=
  Hash.hash64 partition.toUInt64 (Bytes.ofUInt64 n.id).reverse

/-- Whether a node with its weight ranks before another.  Equal weights rank the greater number
first. -/
def ranksBefore (a b : UInt64 × NodeId) : Bool :=
  (compareLex (compareOn (·.1)) (compareOn (·.2)) a b) ≠ .lt

/-- Puts a node in its place among others that are in theirs. -/
def rank (a : UInt64 × NodeId) : List (UInt64 × NodeId) → List (UInt64 × NodeId)
  | [] => [a]
  | b :: bs => if ranksBefore a b then a :: b :: bs else b :: rank a bs

def ranking (weight : NodeId → UInt64) (nodes : List NodeId) : List NodeId :=
  ((nodes.map fun n => (weight n, n)).foldr rank []).map (·.2)

/-- How keys find their owners. -/
inductive Affinity where
  /-- By the ranking of the members (`RendezvousAffinity`). -/
  | ranked (partitions backups : UInt32)
  /-- All keys in partition 0, which belongs to the same nodes at every version. -/
  | pinned (owners : List NodeId)
  deriving DecidableEq, Repr, Inhabited

namespace Affinity

/-- The number of partitions, at least one. -/
def partitions : Affinity → UInt32
  | .ranked partitions _ => if partitions = 0 then 1 else partitions
  | .pinned _ => 1

def partition : Affinity → Key → UInt32
  | .ranked partitions _, key => partitionOf key partitions
  | .pinned _, _ => 0

/-- The owners of a partition at a version, the primary first. -/
def owners (a : Affinity) (t : Topology) (partition : UInt32) (v : TopologyVersion) : List NodeId :=
  match a with
  | .pinned owners => owners
  | .ranked _ backups =>
    match t.nodesAt v with
    | some nodes => (ranking (nodeWeight partition) nodes.toList).take (1 + backups.toNat)
    | none => []

def keyOwners (a : Affinity) (t : Topology) (key : Key) (v : TopologyVersion) : List NodeId :=
  a.owners t (a.partition key) v

def primary (a : Affinity) (t : Topology) (key : Key) (v : TopologyVersion) : Option NodeId :=
  (a.keyOwners t key v).head?

def backups (a : Affinity) (t : Topology) (partition : UInt32) (v : TopologyVersion) :
    List NodeId :=
  (a.owners t partition v).tail

end Affinity

end AtomicGrid
