import AtomicGrid.Affinity
import AtomicGrid.Proofs.SortedMap

/-!
# Topologies to come

The members at a version are on record as long as fewer than `historyLimit` versions have come
since; until then the owners of a key at that version are found as they were.

## Results

* `Topology.Later.nodesAt`: a later topology knows the members at an earlier version.
* `Topology.Later.keyOwners`: it finds the owners of a key as they were.
-/

set_option autoImplicit false

namespace AtomicGrid

theorem TopologyVersion.lt_trans {a b c : TopologyVersion} (h : a < b) (h' : b < c) : a < c :=
  @Std.TransCmp.lt_trans _ compare _ _ _ _ h h'

theorem TopologyVersion.lt_of_le_of_lt {a b c : TopologyVersion} (h : a ≤ b) (h' : b < c) : a < c :=
  @Std.TransCmp.lt_of_isLE_of_lt _ compare _ _ _ _ h h'

theorem TopologyVersion.le_of_lt {a b : TopologyVersion} (h : a < b) : a ≤ b := by
  show (compare a b).isLE = true
  rw [show compare a b = .lt from h]
  rfl

theorem TopologyVersion.le_refl (a : TopologyVersion) : a ≤ a := by
  show (compare a a).isLE = true
  rw [@Std.ReflCmp.compare_self _ compare]
  rfl

theorem TopologyVersion.lt_irrefl (a : TopologyVersion) : ¬ a < a := by
  simp [TopologyVersion.lt_iff, UInt64.lt_irrefl, UInt32.lt_irrefl]

theorem TopologyVersion.le_trans {a b c : TopologyVersion} (h : a ≤ b) (h' : b ≤ c) : a ≤ c :=
  @Std.TransCmp.isLE_trans _ compare _ _ _ _ h h'

theorem TopologyVersion.le_max_right (a b : TopologyVersion) : b ≤ a.max b := by
  unfold TopologyVersion.max
  split
  next => exact TopologyVersion.le_refl b
  next h =>
    show (compare b a).isLE = true
    have h : ¬ (compare a b).isLE = true := h
    have hs : compare b a = (compare a b).swap := Std.OrientedCmp.eq_swap
    rw [hs]
    cases hc : compare a b with
    | gt => rfl
    | lt | eq => simp [hc] at h

theorem TopologyVersion.lt_of_major_lt {a b : TopologyVersion} (h : a.major < b.major) : a < b :=
  TopologyVersion.lt_iff.2 (.inl h)

theorem TopologyVersion.major_le {a b : TopologyVersion} (h : a ≤ b) : a.major ≤ b.major := by
  have h : (compare a b).isLE = true := h
  rw [Ordering.isLE_iff_eq_lt_or_eq_eq] at h
  rcases h with h | h
  · rcases TopologyVersion.lt_iff.1 h with hm | ⟨hm, -⟩
    · exact UInt64.le_of_lt hm
    · exact UInt64.le_of_eq hm
  · rw [Std.LawfulEqCmp.eq_of_compare h]
    exact UInt64.le_refl _

namespace Topology

variable {t t' : Topology} {v v' : TopologyVersion} {members : NodeSet} {k : Nat}

/-- The members at `v` are on record, and at most `k` versions after it. -/
structure Records (t : Topology) (v : TopologyVersion) (members : NodeSet) (k : Nat) : Prop where
  get? : t.history.get? v = some members
  after : t.history.after v ≤ k

theorem Records.nodesAt (h : t.Records v members k) : t.nodesAt v = some members :=
  SortedMap.getLE?_of_get? h.get?

/-- A version stays on record when another comes, unless it is one too many. -/
theorem Records.moveTo (h : t.Records v members k) (hk : k + 1 < historyLimit) (hv : v ≠ v')
    (members' : NodeSet) (ready : Bool) :
    (t.moveTo v' members' ready).Records v members (k + 1) := by
  have hafter : (t.history.insert v' members').after v ≤ k + 1 :=
    Nat.le_trans (SortedMap.after_insert_le _ _ _ _) (Nat.add_le_add_right h.after 1)
  constructor
  · refine SortedMap.get?_keepLast ?_ (Nat.lt_of_le_of_lt hafter hk)
    rw [SortedMap.get?_insert_of_ne _ _ hv]
    exact h.get?
  · exact Nat.le_trans (SortedMap.after_keepLast_le _ _ _) hafter

/-- The version of the topology is the newest on record. -/
def Filed (t : Topology) : Prop := t.Records t.version t.nodes 0

theorem filed_start (nodes : List NodeId) : (start nodes).Filed := by
  constructor
  · exact SortedMap.get?_insert_self _ _ _
  · refine Nat.le_of_eq (SortedMap.after_insert_self ?_ _)
    intro e he
    cases he

/-- A newer version becomes the newest on record. -/
theorem Filed.moveTo (h : t.Filed) (hv : t.version < v') (members : NodeSet) (ready : Bool) :
    (t.moveTo v' members ready).Filed := by
  have hnone : ∀ e ∈ t.history.entries, compare v' e.1 ≠ .lt := by
    intro e he hlt
    have hcount : t.history.after t.version = 0 := Nat.le_zero.1 h.after
    unfold SortedMap.after at hcount
    have hnot := List.countP_eq_zero.1 hcount e he
    rw [decide_eq_true_eq] at hnot
    exact hnot (TopologyVersion.lt_trans hv hlt)
  have hafter : (t.history.insert v' members).after v' = 0 :=
    SortedMap.after_insert_self hnone members
  constructor
  · refine SortedMap.get?_keepLast (SortedMap.get?_insert_self _ _ _) ?_
    exact Nat.lt_of_le_of_lt (Nat.le_of_eq hafter) (by decide)
  · exact Nat.le_trans (SortedMap.after_keepLast_le _ _ _) (Nat.le_of_eq hafter)

/-- What becomes of a topology as exchanges start and end, while there is room for versions. -/
inductive Later (t : Topology) : Topology → Prop
  | refl : Later t t
  | exchange {t' : Topology} (h : Later t t')
      (hr : t'.version.major.toNat + 1 < UInt64.size) (members : List NodeId) :
      Later t (t'.beginExchange members)
  | settle {t' : Topology} (h : Later t t') : Later t t'.completeExchange

theorem toNat_nextMajor (h : v.major.toNat + 1 < UInt64.size) :
    v.nextMajor.major.toNat = v.major.toNat + 1 := by
  show (v.major + 1).toNat = _
  rw [UInt64.toNat_add, UInt64.toNat_one, Nat.mod_eq_of_lt h]

theorem Filed.later (hf : t.Filed) (h : Later t t') : t'.Filed := by
  induction h with
  | refl => exact hf
  | exchange h hr members ih => exact ih.moveTo (TopologyVersion.lt_nextMajor hr) _ _
  | settle h ih => exact ⟨ih.get?, ih.after⟩

theorem Later.version_le (h : Later t t') : t.version ≤ t'.version := by
  induction h with
  | refl => exact TopologyVersion.le_refl _
  | exchange h hr members ih =>
    apply TopologyVersion.le_of_lt
    exact TopologyVersion.lt_of_le_of_lt ih (TopologyVersion.lt_nextMajor hr)
  | settle h ih => exact ih

/-- Every version that has come since is counted. -/
theorem Later.records (hf : t.Filed) (h : Later t t')
    (hlt : t'.version.major.toNat < t.version.major.toNat + historyLimit) :
    ∃ k, t'.Records t.version t.nodes k ∧
      t.version.major.toNat + k = t'.version.major.toNat := by
  induction h with
  | refl => exact ⟨0, hf, rfl⟩
  | @exchange t' h hr members ih =>
    have hmajor : (t'.beginExchange members).version.major.toNat =
        t'.version.major.toNat + 1 := toNat_nextMajor hr
    rw [hmajor] at hlt ⊢
    obtain ⟨k, hk, hsum⟩ := ih (by omega)
    refine ⟨k + 1, hk.moveTo (by omega) ?_ _ _, by omega⟩
    intro he
    have hsame := congrArg (fun v : TopologyVersion => v.major.toNat) he
    simp only [toNat_nextMajor hr] at hsame
    omega
  | settle h ih =>
    obtain ⟨k, hk, hsum⟩ := ih hlt
    exact ⟨k, ⟨hk.get?, hk.after⟩, hsum⟩

/-- A later topology knows the members at an earlier version. -/
theorem Later.nodesAt (hf : t.Filed) (h : Later t t')
    (hlt : t'.version.major.toNat < t.version.major.toNat + historyLimit) :
    t'.nodesAt t.version = t.nodesAt t.version := by
  obtain ⟨k, hk, -⟩ := h.records hf hlt
  rw [hk.nodesAt, Records.nodesAt hf]

/-- A later topology finds the owners of a key as they were. -/
theorem Later.keyOwners (hf : t.Filed) (h : Later t t')
    (hlt : t'.version.major.toNat < t.version.major.toNat + historyLimit) (a : Affinity)
    (key : Key) : a.keyOwners t' key t.version = a.keyOwners t key t.version := by
  unfold Affinity.keyOwners Affinity.owners
  cases a with
  | pinned owners => rfl
  | ranked partitions backups => rw [h.nodesAt hf hlt]

end Topology

end AtomicGrid
