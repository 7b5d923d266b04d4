import AtomicGrid.NodeId

/-!
# Topology versions and write versions

A `TopologyVersion` counts membership changes in `major` and, within one membership, changes of
the partition assignment in `minor`.  A `WriteVersion` names one logical update: the topology
epoch it was submitted in, its number on the submitting node, and that node.

Both are ordered lexicographically, the first field counting most.

## Results

* `TopologyVersion.lt_nextMajor`, `lt_nextMinor`: both successors are greater, short of overflow.
-/

set_option autoImplicit false

namespace AtomicGrid

/-- A state of the grid's membership and partition assignment. -/
structure TopologyVersion where
  major : UInt64
  minor : UInt32
  deriving DecidableEq, Repr, Inhabited

namespace TopologyVersion

/-- The version before any topology was seen. -/
def zero : TopologyVersion := ⟨0, 0⟩

instance : Ord TopologyVersion := ⟨compareLex (compareOn (·.major)) (compareOn (·.minor))⟩

instance : Std.TransOrd TopologyVersion :=
  inferInstanceAs
    (Std.TransCmp (compareLex (compareOn fun v : TopologyVersion => v.major) (compareOn (·.minor))))

theorem compare_eq (a b : TopologyVersion) :
    compare a b = (compare a.major b.major).then (compare a.minor b.minor) := rfl

instance : Std.LawfulEqOrd TopologyVersion where
  eq_of_compare {a b} h := by
    rw [compare_eq, Ordering.then_eq_eq] at h
    cases a; cases b
    simp only [Std.LawfulEqCmp.compare_eq_iff_eq] at h
    simp [h.1, h.2]

instance : LT TopologyVersion := ltOfOrd

instance : LE TopologyVersion := leOfOrd

instance : DecidableLT TopologyVersion := fun a b =>
  inferInstanceAs (Decidable (compare a b = .lt))

instance : DecidableLE TopologyVersion := fun a b =>
  inferInstanceAs (Decidable ((compare a b).isLE = true))

/-- The later of two versions. -/
def max (a b : TopologyVersion) : TopologyVersion := if a ≤ b then b else a

/-- The first version of the next membership. -/
def nextMajor (v : TopologyVersion) : TopologyVersion := ⟨v.major + 1, 0⟩

/-- The next assignment within the same membership. -/
def nextMinor (v : TopologyVersion) : TopologyVersion := ⟨v.major, v.minor + 1⟩

def isZero (v : TopologyVersion) : Bool := v = zero

/-- Major and minor number with a point between. -/
def text (v : TopologyVersion) : String := s!"{v.major.toNat}.{v.minor.toNat}"

theorem lt_iff {a b : TopologyVersion} :
    a < b ↔ a.major < b.major ∨ a.major = b.major ∧ a.minor < b.minor := by
  show compare a b = .lt ↔ _
  rw [compare_eq, Ordering.then_eq_lt]
  simp [Std.compare_eq_lt]

theorem lt_nextMajor {v : TopologyVersion} (h : v.major.toNat + 1 < UInt64.size) :
    v < v.nextMajor := by
  refine lt_iff.2 (.inl (UInt64.lt_iff_toNat_lt.2 ?_))
  rw [nextMajor, UInt64.toNat_add, UInt64.toNat_one, Nat.mod_eq_of_lt h]
  omega

theorem lt_nextMinor {v : TopologyVersion} (h : v.minor.toNat + 1 < UInt32.size) :
    v < v.nextMinor := by
  refine lt_iff.2 (.inr ⟨rfl, UInt32.lt_iff_toNat_lt.2 ?_⟩)
  rw [nextMinor, UInt32.toNat_add, UInt32.toNat_one, Nat.mod_eq_of_lt h]
  omega

end TopologyVersion

/-- The identity of one logical update. -/
structure WriteVersion where
  topologyOrder : UInt32
  order : UInt64
  nodeOrder : UInt32
  deriving DecidableEq, Repr, Inhabited

namespace WriteVersion

instance : Ord WriteVersion :=
  ⟨compareLex (compareOn (·.topologyOrder))
    (compareLex (compareOn (·.order)) (compareOn (·.nodeOrder)))⟩

instance : Std.TransOrd WriteVersion :=
  inferInstanceAs
    (Std.TransCmp (compareLex (compareOn fun v : WriteVersion => v.topologyOrder)
      (compareLex (compareOn (·.order)) (compareOn (·.nodeOrder)))))

theorem compare_eq (a b : WriteVersion) :
    compare a b = (compare a.topologyOrder b.topologyOrder).then
      ((compare a.order b.order).then (compare a.nodeOrder b.nodeOrder)) := rfl

instance : Std.LawfulEqOrd WriteVersion where
  eq_of_compare {a b} h := by
    rw [compare_eq, Ordering.then_eq_eq, Ordering.then_eq_eq] at h
    cases a; cases b
    simp only [Std.LawfulEqCmp.compare_eq_iff_eq] at h
    simp [h.1, h.2.1, h.2.2]

instance : LT WriteVersion := ltOfOrd

instance : LE WriteVersion := leOfOrd

instance : DecidableLT WriteVersion := fun a b =>
  inferInstanceAs (Decidable (compare a b = .lt))

instance : DecidableLE WriteVersion := fun a b =>
  inferInstanceAs (Decidable ((compare a b).isLE = true))

/-- The later of two versions. -/
def max (a b : WriteVersion) : WriteVersion := if a ≤ b then b else a

/-- The three numbers with colons between. -/
def text (v : WriteVersion) : String :=
  s!"{v.topologyOrder.toNat}:{v.order.toNat}:{v.nodeOrder.toNat}"

end WriteVersion

/-- The numbering of the updates submitted on one node (`WriteVersionGenerator`). -/
structure VersionSource where
  nodeOrder : UInt32
  issued : UInt64 := 0
  deriving DecidableEq, Repr, Inhabited

namespace VersionSource

/-- The version of the next update, submitted under `topology`. -/
def next (s : VersionSource) (topology : TopologyVersion) : VersionSource × WriteVersion :=
  let order := s.issued + 1
  ({ s with issued := order }, ⟨topology.major.toUInt32, order, s.nodeOrder⟩)

end VersionSource

end AtomicGrid
