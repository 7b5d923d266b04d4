import AtomicGrid.SortedMap

/-!
# Node identifiers

Every member of the grid has a number.  Sets of nodes list their members in ascending order.
-/

set_option autoImplicit false

namespace AtomicGrid

/-- The number of a grid node. -/
structure NodeId where
  id : UInt64
  deriving DecidableEq, Repr, Inhabited

namespace NodeId

instance : Ord NodeId := ⟨compareOn (·.id)⟩

instance : Std.TransOrd NodeId :=
  inferInstanceAs (Std.TransCmp (compareOn fun n : NodeId => n.id))

instance : Std.LawfulEqOrd NodeId where
  eq_of_compare {a b} h := by
    have h : compare a.id b.id = .eq := h
    cases a; cases b
    exact congrArg NodeId.mk (Std.LawfulEqCmp.eq_of_compare h)

/-- The name by which texts speak of a node. -/
def name (n : NodeId) : String := s!"node-{n.id.toNat}"

end NodeId

/-- A set of nodes. -/
abbrev NodeSet := SortedSet NodeId

end AtomicGrid
